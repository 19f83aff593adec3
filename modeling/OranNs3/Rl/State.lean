import Mathlib.Data.Finset.Sort
import Mathlib.Data.Nat.Digits.Lemmas
import OranNs3.Lib.Double
import OranNs3.Lib.Keyed

/-!
# The states of the Q-table

The observations of an agent (`utils_grpc.py`) and the index under which `QlearnSpace`
(`utils_state.py`) finds the state of an observation in the Q-table. The amounts of a UE are put
into one of three levels each, and the levels of the UEs are the digits of the index, to the base
nine. The index is in the range of the table, and tells the levels of all UEs; each index is that of
an observation where each level is that of some amount (`encodeState`).

A `dict` is the list of its entries in the order of insertion, with distinct keys. What becomes a
`float` is rounded to double precision; thresholds are finite.
-/

namespace OranNs3.Rl

open List

/-- A `dict` of amounts by RNTI. -/
structure Dict where
  entries : List (Nat × Nat)
  nodup : (entries.map Prod.fst).Nodup

namespace Dict

/-- `dict.keys()`. -/
def keys (d : Dict) : List Nat := d.entries.map Prod.fst

/-- `dict.get(rnti, 0)`. -/
def get (d : Dict) (rnti : Nat) : Nat := ((Keyed.find? Prod.fst rnti d.entries).map Prod.snd).getD 0

/-- `{}`. -/
def empty : Dict := ⟨[], List.nodup_nil⟩

end Dict

/-- `TtiTotals`, less the sums over all UEs. -/
structure TtiTotals where
  txdropByUe : Dict
  txpduByUe : Dict
  txbufferByUe : Dict

/-- `float(n)`. -/
def float (n : Nat) : ℚ := Double.round n

/-- `QlearnSpace`, less the actions. -/
structure QlearnSpace where
  nUes : Nat
  buffBinT0 : ℚ
  buffBinT1 : ℚ
  dropBinT0 : ℚ
  dropBinT1 : ℚ

/-- `get_bin`. -/
def getBin (x t0 t1 : ℚ) : Nat := if x ≤ t0 then 0 else if x ≤ t1 then 1 else 2

namespace QlearnSpace

variable {s : QlearnSpace} {totals totals' : TtiTotals}

/-- `n_states`. -/
def nStates (s : QlearnSpace) : Nat := 3 ^ (2 * s.nUes)

/-- `get_rntis`. -/
def getRntis (totals : TtiTotals) : List Nat :=
  (totals.txbufferByUe.keys.toFinset ∪ totals.txdropByUe.keys.toFinset).sort

/-- `adjust_rntis`: missing UEs are `None`, and those that are too many are cut off. -/
def adjustRntis (s : QlearnSpace) (rntis : List Nat) : List (Option Nat) :=
  if rntis.length < s.nUes then
    rntis.map some ++ List.replicate (s.nUes - rntis.length) none
  else (rntis.map some).take s.nUes

/-- `get_buffer_drop_rntis`. -/
def getBufferDropRntis (totals : TtiTotals) : Option Nat → ℚ × ℚ
  | none => (0, 0)
  | some rnti => (float (totals.txbufferByUe.get rnti), float (totals.txdropByUe.get rnti))

/-- The levels of a UE, `buffer_bin` and `drop_bin`. -/
def levels (s : QlearnSpace) (totals : TtiTotals) (rnti : Option Nat) : Nat × Nat :=
  let (buffer, drop) := getBufferDropRntis totals rnti
  (getBin buffer s.buffBinT0 s.buffBinT1, getBin drop s.dropBinT0 s.dropBinT1)

/-- `bulid_state_id`. -/
def bulidStateId (s : QlearnSpace) (rntis : List (Option Nat)) (totals : TtiTotals) : Nat :=
  rntis.foldl (fun id rnti => id * 9 + (s.levels totals rnti).1 * 3 + (s.levels totals rnti).2) 0

/-- `encode_state_from_totals`. -/
def encodeStateFromTotals (s : QlearnSpace) (totals : TtiTotals) : Nat :=
  s.bulidStateId (s.adjustRntis (getRntis totals)) totals

/-- The space of the agent, for `n` UEs. -/
def agent (n : Nat) : QlearnSpace := ⟨n, 20000, 60000, 2000, 6000⟩

/-! ## What the index stands for -/

/-- The levels of all UEs, in the order of the RNTIs. -/
def bins (s : QlearnSpace) (totals : TtiTotals) : List (Nat × Nat) :=
  (s.adjustRntis (getRntis totals)).map (s.levels totals)

/-- Each level is that of some amount. -/
def LevelsOccur (s : QlearnSpace) : Prop :=
  ∀ k < 3, (∃ x, getBin (float x) s.buffBinT0 s.buffBinT1 = k) ∧
    ∃ x, getBin (float x) s.dropBinT0 s.dropBinT1 = k

/-- The digit of a UE. -/
def digit (p : Nat × Nat) : Nat := p.1 * 3 + p.2

theorem getBin_lt (x t0 t1 : ℚ) : getBin x t0 t1 < 3 := by
  unfold getBin
  split_ifs <;> decide

theorem length_adjustRntis (rntis : List Nat) : (s.adjustRntis rntis).length = s.nUes := by
  unfold adjustRntis
  split
  · next h =>
    rw [length_append, length_map, length_replicate]
    omega
  · next h =>
    rw [length_take, length_map]
    omega

theorem length_bins : (s.bins totals).length = s.nUes := by
  rw [bins, length_map, length_adjustRntis]

theorem levels_lt (rnti : Option Nat) :
    (s.levels totals rnti).1 < 3 ∧ (s.levels totals rnti).2 < 3 :=
  ⟨getBin_lt _ _ _, getBin_lt _ _ _⟩

theorem lt_of_mem_bins {p : Nat × Nat} (hp : p ∈ s.bins totals) : p.1 < 3 ∧ p.2 < 3 := by
  obtain ⟨rnti, -, rfl⟩ := mem_map.1 hp
  exact levels_lt rnti

theorem foldl_digit (l : List (Nat × Nat)) (id : Nat) :
    l.foldl (fun id p => id * 9 + p.1 * 3 + p.2) id =
      Nat.ofDigits 9 ((l.map digit).reverse) + id * 9 ^ l.length := by
  induction l generalizing id with
  | nil => simp
  | cons p l ih =>
    rw [foldl_cons, ih, map_cons, reverse_cons, Nat.ofDigits_append,
      length_reverse, length_map, Nat.ofDigits_singleton, length_cons, digit]
    ring

theorem encode_eq (s : QlearnSpace) (totals : TtiTotals) :
    s.encodeStateFromTotals totals = Nat.ofDigits 9 (((s.bins totals).map digit).reverse) := by
  have h := foldl_digit (s.bins totals) 0
  rw [bins, foldl_map] at h
  rw [encodeStateFromTotals, bulidStateId, h, Nat.zero_mul, Nat.add_zero, bins]

theorem digit_lt : ∀ d ∈ ((s.bins totals).map digit).reverse, d < 9 := by
  intro d hd
  obtain ⟨p, hp, rfl⟩ := mem_map.1 (mem_reverse.1 hd)
  have := lt_of_mem_bins hp
  unfold digit
  omega

theorem nStates_eq (s : QlearnSpace) : s.nStates = 9 ^ s.nUes := by
  rw [nStates, pow_mul]
  norm_num

theorem encode_lt (s : QlearnSpace) (totals : TtiTotals) :
    s.encodeStateFromTotals totals < s.nStates := by
  rw [encode_eq, nStates_eq]
  have hd : ∀ d ∈ ((s.bins totals).map digit).reverse, d < 9 := digit_lt
  have h := Nat.ofDigits_lt_base_pow_length (by decide) hd
  rwa [length_reverse, length_map, length_bins] at h

theorem map_digit : ((s.bins totals).map digit).map (fun d => (d / 3, d % 3)) = s.bins totals := by
  rw [map_map, map_congr_left (g := id) fun p hp => ?_, map_id]
  have := lt_of_mem_bins hp
  simp only [Function.comp_apply, digit, id_eq]
  exact Prod.ext (by dsimp only; omega) (by dsimp only; omega)

theorem encode_inj :
    s.encodeStateFromTotals totals = s.encodeStateFromTotals totals' ↔
      s.bins totals = s.bins totals' := by
  constructor
  · intro h
    rw [encode_eq, encode_eq] at h
    have hlen : ((s.bins totals).map digit).reverse.length =
      ((s.bins totals').map digit).reverse.length := by
      simp only [length_reverse, length_map, length_bins]
    have hdig := reverse_injective (Nat.ofDigits_inj_of_len_eq (by decide) hlen digit_lt digit_lt h)
    exact map_digit.symm.trans ((congrArg _ hdig).trans map_digit)
  · intro h
    rw [encode_eq, encode_eq, h]

end QlearnSpace

/-! ## Observations of given levels -/

namespace Dict

/-- The amounts of the UEs with the RNTIs from zero on. -/
def ofList (l : List Nat) : Dict where
  entries := l.zipIdx.map Prod.swap
  nodup := by
    have h : (l.zipIdx.map Prod.swap).map Prod.fst = List.range l.length := by
      rw [List.map_map, List.range_eq_range', ← List.zipIdx_map_snd 0 l]
      rfl
    rw [h]
    exact List.nodup_range

@[simp]
theorem keys_ofList (l : List Nat) : (ofList l).keys = List.range l.length := by
  rw [keys, ofList, map_map, range_eq_range', ← zipIdx_map_snd 0 l]
  rfl

theorem get_ofList {l : List Nat} {i : Nat} (h : i < l.length) : (ofList l).get i = l[i] := by
  have hmem : (i, l[i]) ∈ (ofList l).entries :=
    mem_map.2 ⟨(l[i], i), mk_mem_zipIdx_iff_getElem?.2 (getElem?_eq_getElem h), rfl⟩
  rw [get, Keyed.find?_of_mem (ofList l).nodup hmem]
  rfl

end Dict

namespace QlearnSpace

variable {s : QlearnSpace}

theorem bins_ofList {buffers drops : List Nat} (hb : buffers.length = s.nUes)
    (hd : drops.length = s.nUes) :
    s.bins ⟨.ofList drops, .empty, .ofList buffers⟩ = (buffers.zip drops).map fun p =>
      (getBin (float p.1) s.buffBinT0 s.buffBinT1, getBin (float p.2) s.dropBinT0 s.dropBinT1) := by
  have hr : getRntis ⟨.ofList drops, .empty, .ofList buffers⟩ = List.range s.nUes := by
    rw [getRntis, Dict.keys_ofList, Dict.keys_ofList, hb, hd, Finset.union_self, toFinset_range,
      Finset.sort_range]
  have ha : s.adjustRntis (List.range s.nUes) = (List.range s.nUes).map some := by
    rw [adjustRntis, if_neg (by simp), take_of_length_le (by simp)]
  rw [bins, hr, ha]
  refine ext_getElem (by simp [hb, hd]) fun i h1 h2 => ?_
  have hi : i < s.nUes := by simpa using h1
  simp only [getElem_map, getElem_range, getElem_zip, levels, getBufferDropRntis]
  rw [Dict.get_ofList (hb ▸ hi), Dict.get_ofList (hd ▸ hi)]

theorem exists_bins (h : s.LevelsOccur) {l : List (Nat × Nat)} (hlen : l.length = s.nUes)
    (hl : ∀ p ∈ l, p.1 < 3 ∧ p.2 < 3) : ∃ totals, s.bins totals = l := by
  choose! fb hfb using fun k hk => (h k hk).1
  choose! fd hfd using fun k hk => (h k hk).2
  have hb : (l.map fun p => fb p.1).length = s.nUes := by simpa using hlen
  have hd : (l.map fun p => fd p.2).length = s.nUes := by simpa using hlen
  refine ⟨_, (bins_ofList hb hd).trans ?_⟩
  rw [zip_map', map_map, map_congr_left (g := id) fun p hp => ?_, map_id]
  obtain ⟨hp1, hp2⟩ := hl p hp
  exact Prod.ext (hfb p.1 hp1) (hfd p.2 hp2)

theorem exists_encode (h : s.LevelsOccur) {k : Nat} (hk : k < s.nStates) :
    ∃ totals, s.encodeStateFromTotals totals = k := by
  rw [nStates_eq] at hk
  have hlen := Nat.length_digitsAppend (by decide) s.nUes hk
  have hlt := Nat.lt_of_mem_digitsAppend (n := k) (show 1 < 9 by decide) s.nUes
  obtain ⟨totals, ht⟩ := exists_bins h
    (l := (Nat.digitsAppend 9 s.nUes k).reverse.map fun d => (d / 3, d % 3))
    (by rw [length_map, length_reverse, hlen]) (by
      intro p hp
      obtain ⟨d, hd, rfl⟩ := mem_map.1 hp
      have := hlt d (mem_reverse.1 hd)
      dsimp only
      omega)
  have hdigit : digit ∘ (fun d => (d / 3, d % 3)) = id := by
    funext d
    simp only [Function.comp_apply, digit, id_eq]
    omega
  refine ⟨totals, ?_⟩
  rw [encode_eq, ht, map_map, hdigit, map_id, reverse_reverse]
  exact (Nat.setInvOn_digitsAppend_ofDigits (by decide) s.nUes).2 hk

theorem levelsOccur_of_exists (hn : 0 < s.nUes)
    (h : ∀ k < s.nStates, ∃ totals, s.encodeStateFromTotals totals = k) : s.LevelsOccur := by
  intro k hk
  have hid : k * 4 < s.nStates := by
    rw [nStates_eq]
    have := Nat.pow_le_pow_right (show 0 < 9 by decide) hn
    omega
  obtain ⟨totals, ht⟩ := h _ hid
  have hne : s.bins totals ≠ [] := by
    rw [← length_pos_iff, length_bins]
    exact hn
  -- the last UE has the least significant digit
  obtain ⟨l, p, hl⟩ : ∃ l p, s.bins totals = l ++ [p] :=
    ⟨_, _, (dropLast_concat_getLast hne).symm⟩
  rw [encode_eq, hl, map_append, reverse_append, map_singleton, reverse_singleton,
    singleton_append, Nat.ofDigits_cons] at ht
  have hp : p ∈ s.bins totals := by rw [hl]; exact mem_append_right _ (mem_singleton.2 rfl)
  have hlt := lt_of_mem_bins hp
  obtain ⟨rnti, -, rfl⟩ := mem_map.1 hp
  have hdigit : digit (s.levels totals rnti) = k * 4 := by omega
  have hlevels : (s.levels totals rnti).1 = k ∧ (s.levels totals rnti).2 = k := by
    unfold digit at hdigit
    omega
  have hfloat : ∃ x y, getBufferDropRntis totals rnti = (float x, float y) := by
    cases rnti with
    | none =>
      have h0 : float 0 = 0 := by simpa [float] using Double.round_natCast (n := 0) (by norm_num)
      exact ⟨0, 0, by rw [getBufferDropRntis, h0]⟩
    | some r => exact ⟨_, _, rfl⟩
  obtain ⟨x, y, hxy⟩ := hfloat
  unfold levels at hlevels
  rw [hxy] at hlevels
  exact ⟨⟨x, hlevels.1⟩, ⟨y, hlevels.2⟩⟩

theorem agent_levelsOccur (n : Nat) : (agent n).LevelsOccur := by
  have hf : ∀ x < 2 ^ 53, float x = x := fun x hx => Double.round_natCast hx
  intro k hk
  have hcases : k = 0 ∨ k = 1 ∨ k = 2 := by omega
  rcases hcases with rfl | rfl | rfl
  · exact ⟨⟨0, by rw [hf 0 (by norm_num)]; norm_num [getBin, agent]⟩,
      ⟨0, by rw [hf 0 (by norm_num)]; norm_num [getBin, agent]⟩⟩
  · exact ⟨⟨60000, by rw [hf 60000 (by norm_num)]; norm_num [getBin, agent]⟩,
      ⟨6000, by rw [hf 6000 (by norm_num)]; norm_num [getBin, agent]⟩⟩
  · exact ⟨⟨60001, by rw [hf 60001 (by norm_num)]; norm_num [getBin, agent]⟩,
      ⟨6001, by rw [hf 6001 (by norm_num)]; norm_num [getBin, agent]⟩⟩

/-- The index of an observation is in the range of the table, observations have the same index when
the levels of all UEs are the same, and all of the range is reached where each level is that of some
amount. -/
theorem encodeState (s : QlearnSpace) :
    (∀ totals, s.encodeStateFromTotals totals < s.nStates) ∧
    (∀ totals totals', s.encodeStateFromTotals totals = s.encodeStateFromTotals totals' ↔
      s.bins totals = s.bins totals') ∧
    ((∀ k < s.nStates, ∃ totals, s.encodeStateFromTotals totals = k) ↔ s.nUes = 0 ∨ s.LevelsOccur) ∧
    ∀ n, (agent n).LevelsOccur := by
  refine ⟨encode_lt s, fun _ _ => encode_inj, ⟨fun h => ?_, ?_⟩, agent_levelsOccur⟩
  · rcases Nat.eq_zero_or_pos s.nUes with h0 | hpos
    · exact .inl h0
    · exact .inr (levelsOccur_of_exists hpos h)
  · rintro (h0 | hl) k hk
    · have hone := encode_lt s ⟨.empty, .empty, .empty⟩
      rw [nStates_eq, h0] at hk hone
      exact ⟨⟨.empty, .empty, .empty⟩, by omega⟩
    · exact exists_encode hl hk

end QlearnSpace

end OranNs3.Rl
