import OranNs3.Rl.State

/-!
# From an action to shares

`shares_from_action` of the two agents, in exact arithmetic. An action is a pair of shares. The
agent with the neural network (`rl_dqn.py`) gives them to two groups of UEs and divides them among
the members, so that every UE gets a share (`dqn_covers`). The agent with the Q-table
(`rl_qlearn.py`) pairs them with the UEs in the order of the RNTIs, and UEs that are left over get
nothing: all get a share exactly when there are at most two (`shares_iff`).
-/

namespace OranNs3.Rl

open List

/-! ## Observations -/

namespace Dict

variable {d : Dict} {k x r : Nat}

/-- `if rnti not in dict: dict[rnti] = 0`. -/
def touch (d : Dict) (k : Nat) : Dict :=
  if h : k ∈ d.keys then d
  else ⟨d.entries ++ [(k, 0)], by
    rw [List.map_append]
    exact d.nodup.append (List.nodup_singleton k) (List.disjoint_singleton.2 h)⟩

/-- `dict[rnti] += x`. -/
def addAt (d : Dict) (k x : Nat) : Dict :=
  ⟨Keyed.modify Prod.fst k (fun e => (e.1, e.2 + x)) d.entries, by
    have h : (Keyed.modify Prod.fst k (fun e => (e.1, e.2 + x)) d.entries).map Prod.fst =
        d.entries.map Prod.fst := Keyed.map_modify fun _ _ _ => rfl
    rw [h]
    exact d.nodup⟩

theorem mem_keys_touch : r ∈ (d.touch k).keys ↔ r ∈ d.keys ∨ r = k := by
  unfold touch
  split
  · next h =>
    constructor
    · exact .inl
    · rintro (hr | rfl)
      · exact hr
      · exact h
  · simp [keys]

theorem keys_addAt : (d.addAt k x).keys = d.keys := Keyed.map_modify fun _ _ _ => rfl

end Dict

/-- A UE of an observation. -/
structure UeObservation where
  rnti : Nat
  txdrop : Nat
  txbuffer : Nat
  txpdu : Nat

/-- The body of the loop of `QLearnAggregator.aggregate`. -/
def aggregateUe (t : TtiTotals) (ue : UeObservation) : TtiTotals where
  txdropByUe := (t.txdropByUe.touch ue.rnti).addAt ue.rnti ue.txdrop
  txpduByUe := (t.txpduByUe.touch ue.rnti).addAt ue.rnti ue.txpdu
  txbufferByUe := (t.txbufferByUe.touch ue.rnti).addAt ue.rnti ue.txbuffer

/-- `QLearnAggregator.aggregate`. -/
def aggregate (ues : List UeObservation) : TtiTotals :=
  ues.foldl aggregateUe ⟨.empty, .empty, .empty⟩

variable {ues : List UeObservation} {a : Fin 3} {totals : TtiTotals} {r : Nat}

theorem mem_keys_aggregate : r ∈ (aggregate ues).txbufferByUe.keys ↔ ∃ ue ∈ ues, ue.rnti = r := by
  have h : ∀ (l : List UeObservation) (t : TtiTotals),
      r ∈ (l.foldl aggregateUe t).txbufferByUe.keys ↔ r ∈ t.txbufferByUe.keys ∨ ∃ ue ∈ l,
      ue.rnti = r := by
    intro l
    induction l with
    | nil => simp
    | cons ue l ih =>
      intro t
      rw [foldl_cons, ih, aggregateUe, Dict.keys_addAt, Dict.mem_keys_touch]
      simp only [mem_cons, exists_eq_or_imp, or_assoc, @eq_comm _ r]
  rw [aggregate, h]
  simp [Dict.empty, Dict.keys]

/-! ## The two agents -/

/-- The actions of both agents. -/
def actions : Fin 3 → ℚ × ℚ
  | 0 => (1 / 2, 1 / 2)
  | 1 => (9 / 10, 1 / 10)
  | 2 => (1 / 10, 9 / 10)

/-- The shares of an agent, a `dict` by RNTI, in the order of insertion. -/
abbrev Shares := List (Nat × ℚ)

/-- The final normalization of both agents. -/
def normalizeShares (l : Shares) : Shares :=
  let s := (l.map Prod.snd).sum
  if 0 < s then l.map fun e => (e.1, e.2 / s) else l

/-- `shares_from_action` of the agent with the Q-table. -/
def sharesFromActionQlearn (totals : TtiTotals) (a : Fin 3) : Shares :=
  let ueRntis := totals.txbufferByUe.keys.toFinset.sort
  if ueRntis = [] then [] else
    let groupShares := [(actions a).1, (actions a).2]
    normalizeShares (ueRntis.zip groupShares)

/-- `split_rntis_in_groups`. -/
def splitRntisInGroups (rntis : List Nat) : List (List Nat) :=
  let lim := rntis.length / 2
  [rntis.take lim, rntis.drop lim]

/-- The weight of a UE. -/
def peso (totals : TtiTotals) (rnti : Nat) : ℚ :=
  let buffer : ℚ := totals.txbufferByUe.get rnti
  if buffer < 1 then 1 else buffer

/-- The shares of the members of a group, of which there may be none. -/
def groupShares (totals : TtiTotals) (share : ℚ) (miembros : List Nat) : Shares :=
  let sumaPesos := (miembros.map (peso totals)).sum
  miembros.map fun rnti => (rnti, share * (peso totals rnti / sumaPesos))

/-- `shares_from_action` of the agent with the neural network. -/
def sharesFromActionDqn (totals : TtiTotals) (a : Fin 3) : Shares :=
  let ueRntis := totals.txbufferByUe.keys
  if ueRntis.length = 0 then [] else
    let sharesGrupo := [(actions a).1, (actions a).2]
    normalizeShares (((splitRntisInGroups ueRntis).zip sharesGrupo).flatMap fun p =>
      groupShares totals p.2 p.1)

/-- Every observed UE has a share above zero, and the shares add up to the whole. -/
structure Covers (ues : List UeObservation) (l : Shares) : Prop where
  pos : ∀ ue ∈ ues, ∃ x, (ue.rnti, x) ∈ l ∧ 0 < x
  sum : (l.map Prod.snd).sum = 1

/-! ## Normalized shares -/

theorem actions_pos (a : Fin 3) : 0 < (actions a).1 ∧ 0 < (actions a).2 := by
  match a with
  | 0 | 1 | 2 => norm_num [actions]

variable {l : Shares}

theorem sum_pos (hne : l ≠ []) (hpos : ∀ e ∈ l, 0 < e.2) : 0 < (l.map Prod.snd).sum := by
  refine List.sum_pos _ ?_ (by simpa using hne)
  intro x hx
  obtain ⟨e, he, rfl⟩ := mem_map.1 hx
  exact hpos e he

theorem normalizeShares_spec (hne : l ≠ []) (hpos : ∀ e ∈ l, 0 < e.2) :
    (normalizeShares l).map Prod.fst = l.map Prod.fst ∧ (∀ e ∈ normalizeShares l, 0 < e.2) ∧
      ((normalizeShares l).map Prod.snd).sum = 1 := by
  have hs := sum_pos hne hpos
  have heq : normalizeShares l = l.map fun e => (e.1, e.2 / (l.map Prod.snd).sum) := if_pos hs
  rw [heq]
  refine ⟨by simp, fun e he => ?_, ?_⟩
  · obtain ⟨e', he', rfl⟩ := mem_map.1 he
    exact div_pos (hpos e' he') hs
  · have hmul : (l.map fun e => e.2 * ((l.map Prod.snd).sum)⁻¹).sum =
        (l.map Prod.snd).sum * ((l.map Prod.snd).sum)⁻¹ := sum_map_mul_right l Prod.snd _
    simp only [map_map, Function.comp_def, div_eq_mul_inv]
    rw [hmul, mul_inv_cancel₀ hs.ne']

theorem covers_normalizeShares (hne : l ≠ []) (hpos : ∀ e ∈ l, 0 < e.2)
    (hkeys : ∀ ue ∈ ues, ue.rnti ∈ l.map Prod.fst) : Covers ues (normalizeShares l) := by
  obtain ⟨hk, hp, hs⟩ := normalizeShares_spec hne hpos
  refine ⟨fun ue hue => ?_, hs⟩
  have hmem := hkeys ue hue
  rw [← hk] at hmem
  obtain ⟨e, he, heq⟩ := mem_map.1 hmem
  exact ⟨e.2, heq ▸ he, hp e he⟩

/-! ## The agent with the neural network -/

theorem peso_pos (totals : TtiTotals) (rnti : Nat) : 0 < peso totals rnti := by
  unfold peso
  dsimp only
  split
  · exact one_pos
  · next h => exact one_pos.trans_le (not_lt.1 h)

theorem groupShares_pos {share : ℚ} (hs : 0 < share) {miembros : List Nat} :
    ∀ e ∈ groupShares totals share miembros, 0 < e.2 := by
  intro e he
  obtain ⟨r, hr, rfl⟩ := mem_map.1 he
  refine mul_pos hs (div_pos (peso_pos totals r) (List.sum_pos _ ?_ ?_))
  · intro x hx
    obtain ⟨r', -, rfl⟩ := mem_map.1 hx
    exact peso_pos totals r'
  · rintro hnil
    rw [map_eq_nil_iff.1 hnil] at hr
    cases hr

theorem map_fst_groupShares (totals : TtiTotals) (share : ℚ) (miembros : List Nat) :
    (groupShares totals share miembros).map Prod.fst = miembros := by
  rw [groupShares, map_map]
  exact map_id _

theorem keys_of_observed (hne : ues ≠ []) (hl : ∀ r, r ∈ l.map Prod.fst ↔
      r ∈ (aggregate ues).txbufferByUe.keys) : l ≠ [] ∧ ∀ ue ∈ ues, ue.rnti ∈ l.map Prod.fst := by
  have hkeys : ∀ ue ∈ ues, ue.rnti ∈ l.map Prod.fst :=
    fun ue hue => (hl _).2 (mem_keys_aggregate.2 ⟨ue, hue, rfl⟩)
  obtain ⟨ue, rest, rfl⟩ := exists_cons_of_ne_nil hne
  refine ⟨?_, hkeys⟩
  rintro rfl
  cases hkeys ue mem_cons_self

theorem dqn_covers (hne : ues ≠ []) (a : Fin 3) :
    Covers ues (sharesFromActionDqn (aggregate ues) a) := by
  have hkeys : (aggregate ues).txbufferByUe.keys.length ≠ 0 := by
    obtain ⟨ue, rest, rfl⟩ := exists_cons_of_ne_nil hne
    exact (length_pos_of_mem (mem_keys_aggregate.2 ⟨ue, mem_cons_self, rfl⟩)).ne'
  rw [sharesFromActionDqn, if_neg hkeys]
  simp only [splitRntisInGroups, zip_cons_cons, zip_nil_left, flatMap_cons, flatMap_nil, append_nil]
  obtain ⟨hl, hmem⟩ := keys_of_observed hne (l := groupShares (aggregate ues) (actions a).1 _ ++
      groupShares (aggregate ues) (actions a).2 _) fun r => by
    rw [map_append, map_fst_groupShares, map_fst_groupShares, take_append_drop]
  refine covers_normalizeShares hl (fun e he => ?_) hmem
  rcases mem_append.1 he with he | he
  · exact groupShares_pos (actions_pos a).1 e he
  · exact groupShares_pos (actions_pos a).2 e he

/-! ## The agent with the Q-table -/

/-- The agent with the Q-table gives a share to the first two UEs. -/
theorem qlearn_covers_iff (hne : ues ≠ []) (hnd : (ues.map (·.rnti)).Nodup) (a : Fin 3) :
    Covers ues (sharesFromActionQlearn (aggregate ues) a) ↔ ues.length ≤ 2 := by
  have hmem : ∀ r, r ∈ (aggregate ues).txbufferByUe.keys.toFinset.sort ↔ r ∈ ues.map (·.rnti) := by
    intro r
    rw [Finset.mem_sort, mem_toFinset, mem_keys_aggregate, mem_map]
  have hlen : ((aggregate ues).txbufferByUe.keys.toFinset.sort).length = ues.length := by
    rw [← length_map (f := fun ue : UeObservation => ue.rnti)]
    exact ((perm_ext_iff_of_nodup (Finset.sort_nodup _ _) hnd).2 hmem).length_eq
  have hnil : (aggregate ues).txbufferByUe.keys.toFinset.sort ≠ [] := by
    rw [← length_pos_iff, hlen]
    exact length_pos_iff.2 hne
  rw [sharesFromActionQlearn, if_neg hnil]
  generalize (aggregate ues).txbufferByUe.keys.toFinset.sort = l at hmem hlen hnil ⊢
  have hzip : l.zip [(actions a).1, (actions a).2] ≠ [] := by
    rw [← length_pos_iff, length_zip]
    have := length_pos_iff.2 hnil
    simp only [length_cons, length_nil]
    omega
  have hpos : ∀ e ∈ l.zip [(actions a).1, (actions a).2], 0 < e.2 := by
    intro e he
    have hsnd := (of_mem_zip (show (e.1, e.2) ∈ _ from he)).2
    simp only [mem_cons, not_mem_nil, or_false] at hsnd
    rcases hsnd with h | h
    · exact h ▸ (actions_pos a).1
    · exact h ▸ (actions_pos a).2
  constructor
  · intro h
    -- the RNTIs with a share are among two
    have hsub : ues.map (·.rnti) ⊆ (l.zip [(actions a).1, (actions a).2]).map Prod.fst := by
      intro r hr
      obtain ⟨ue, hue, rfl⟩ := mem_map.1 hr
      obtain ⟨x, hx, -⟩ := h.pos ue hue
      rw [← (normalizeShares_spec hzip hpos).1]
      exact mem_map.2 ⟨_, hx, rfl⟩
    have hle := (hnd.subperm hsub).length_le
    simp only [length_map, length_zip, length_cons, length_nil] at hle
    omega
  · intro h
    refine covers_normalizeShares hzip hpos fun ue hue => ?_
    rw [map_fst_zip (by rw [hlen]; exact h)]
    exact (hmem _).2 (mem_map.2 ⟨ue, hue, rfl⟩)

/-- Both agents give every UE a share, and the whole to all, exactly when there are at most two UEs.
-/
theorem shares_iff (ues : List UeObservation) (a : Fin 3) (hne : ues ≠ [])
    (hnd : (ues.map (·.rnti)).Nodup) :
    Covers ues (sharesFromActionQlearn (aggregate ues) a) ∧
      Covers ues (sharesFromActionDqn (aggregate ues) a) ↔ ues.length ≤ 2 := by
  rw [qlearn_covers_iff hne hnd]
  exact and_iff_left (dqn_covers hne a)

/-- Two UEs. -/
theorem shares_iff_two :
    Covers [⟨1, 0, 5, 0⟩, ⟨2, 0, 0, 0⟩]
      (sharesFromActionQlearn (aggregate [⟨1, 0, 5, 0⟩, ⟨2, 0, 0, 0⟩]) 1) ∧
    Covers [⟨1, 0, 5, 0⟩, ⟨2, 0, 0, 0⟩]
      (sharesFromActionDqn (aggregate [⟨1, 0, 5, 0⟩, ⟨2, 0, 0, 0⟩]) 1) :=
  (shares_iff [⟨1, 0, 5, 0⟩, ⟨2, 0, 0, 0⟩] 1 (by decide) (by decide)).2 (by decide)

/-- Of three UEs, the agent with the Q-table leaves out the third. -/
theorem third_ue_left_out : ¬ ∀ (ues : List UeObservation) (a : Fin 3), ues ≠ [] →
    (ues.map (·.rnti)).Nodup → Covers ues (sharesFromActionQlearn (aggregate ues) a) ∧
      Covers ues (sharesFromActionDqn (aggregate ues) a) := by
  intro h
  have hcov := (h [⟨1, 0, 0, 0⟩, ⟨2, 0, 0, 0⟩, ⟨3, 0, 0, 0⟩] 0 (by decide) (by decide)).1
  exact absurd ((qlearn_covers_iff (by decide) (by decide) 0).1 hcov) (by decide)

end OranNs3.Rl
