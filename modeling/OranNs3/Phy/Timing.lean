import OranNs3.Phy.SfnSf
import Mathlib.Data.Int.ModEq

/-!
# The timing structures of a TDD pattern

In a pattern that `IsTdd` takes for TDD some slot is not UL and some slot is not DL, so the two
searches around the pattern end within one round (`returnDciSlot_eq_some`,
`returnHarqSlot_eq_some`), at the nearest slot that serves. The loop over the positions then fills
the four tables, one entry for each position of a direction (`foldlM_generateAt`), and the general
facts about such tables (`OranNs3.Lib.Cyclic`) say that every position is the target of exactly one
entry and that, over the slots of a run, every slot is indicated to the MAC exactly once, as long as
`Normalize` gives the exact numbers of the slots (`RunFits`). Beyond, the number of a slot goes back
to 0 and the pattern slips (`pattern_slips`).
-/

namespace OranNs3.Phy

open Cyclic List Option

/-! ## The positions of a pattern -/

section modulo
variable {m : Nat}

theorem moduloLoop_eq : ∀ {fuel : Nat} {n : Int}, -n ≤ fuel → n < m → 0 < m →
    moduloLoop fuel n m = n % m
  | 0, n, hfuel, hlt, _ => by
    rw [moduloLoop, Int.emod_eq_of_lt (by omega) hlt]
  | fuel + 1, n, hfuel, hlt, hm => by
    rw [moduloLoop]
    split
    · rw [moduloLoop_eq (by omega) (by omega) hm, Int.add_emod_right]
    · rw [Int.emod_eq_of_lt (by omega) hlt]

theorem modulo_eq (n : Int) (hm : 0 < m) : (modulo n m : Int) = n % m := by
  have hpos : (0 : Int) < m := by exact_mod_cast hm
  rw [modulo]
  split
  · next h =>
    rw [Int.natCast_mod, Int.toNat_of_nonneg h]
  · next h =>
    rw [moduloLoop_eq (by omega) (by omega) hm, Int.toNat_of_nonneg (Int.emod_nonneg _ hpos.ne')]

theorem modulo_lt (n : Int) (hm : 0 < m) : modulo n m < m := by
  have hpos : (0 : Int) < m := by exact_mod_cast hm
  have := Int.emod_lt_of_pos n hpos
  rw [← modulo_eq n hm] at this
  exact_mod_cast this

theorem modulo_add (a b : Nat) (hm : 0 < m) : modulo ((a : Int) + b) m = (a + b) % m := by
  have h := modulo_eq ((a : Int) + b) hm
  exact_mod_cast h

theorem modulo_sub_add (a : Int) {b c : Nat} (hcb : c ≤ b) (hm : 0 < m) :
    (modulo (a - b) m + (b - c)) % m = modulo (a - c) m := by
  have h : ((modulo (a - b) m + (b - c) : Nat) : Int) ≡ modulo (a - c) m [ZMOD m] := by
    rw [Int.natCast_add, Int.natCast_sub hcb, modulo_eq _ hm, modulo_eq _ hm]
    have hcong : (a - b) % m + ((b : Int) - c) ≡ a - c [ZMOD m] := by
      have := (Int.mod_modEq (a - b) m).add_right ((b : Int) - c)
      have heq : a - b + ((b : Int) - c) = a - c := by ring
      rwa [heq] at this
    exact hcong.trans (Int.mod_modEq _ _).symm
  have h' := Int.natCast_modEq_iff.1 h
  rw [Nat.ModEq] at h'
  rw [h', Nat.mod_eq_of_lt (modulo_lt _ hm)]

theorem exists_modulo_eq (a : Int) {i : Nat} (hi : i < m) :
    (∃ j < m, modulo (a + (j : Nat)) m = i) ∧ ∃ j < m, modulo (a - (j : Nat)) m = i := by
  have hm : 0 < m := Nat.zero_lt_of_lt hi
  have key : ∀ b : Int, b ≡ i [ZMOD m] → modulo b m = i := by
    intro b hb
    have h1 := modulo_eq b hm
    have h2 : (i : Int) % m = i := Int.emod_eq_of_lt (by omega) (by omega)
    rw [Int.ModEq, h2] at hb
    rw [hb] at h1
    exact_mod_cast h1
  constructor
  · refine ⟨modulo (i - a) m, modulo_lt _ hm, key _ ?_⟩
    rw [modulo_eq _ hm]
    have := (Int.mod_modEq (i - a) m).add_left a
    rwa [add_sub_cancel] at this
  · refine ⟨modulo (a - i) m, modulo_lt _ hm, key _ ?_⟩
    rw [modulo_eq _ hm]
    have := (Int.mod_modEq (a - i) m).symm.sub_left a
    rw [sub_sub_cancel] at this
    exact this.symm

end modulo

/-! ## The searches -/

section search
variable {pattern : List SlotType} {fuel pos n n1 : Nat}

theorem exists_slot (hne : pattern ≠ []) (a : Int) :
    ∃ t, pattern[modulo a pattern.length]? = some t :=
  ⟨_, getElem?_eq_getElem (modulo_lt a (length_pos_iff.2 hne))⟩

theorem firstFrom_slot (ok : SlotType → Bool) (at_ : Nat → Int) (hex : ∃ t ∈ pattern, ok t)
    (hat : ∀ i < pattern.length, ∃ j < pattern.length, modulo (at_ (n + j)) pattern.length = i)
    (hfuel : pattern.length ≤ fuel) :
    ∃ k, firstFrom (fun k => (pattern[modulo (at_ k) pattern.length]?).map ok) fuel n = some k ∧
      n ≤ k ∧ k < n + pattern.length ∧
      (∃ t, pattern[modulo (at_ k) pattern.length]? = some t ∧ ok t) ∧
      ∀ j, n ≤ j → j < k → ∃ t, pattern[modulo (at_ j) pattern.length]? = some t ∧ ¬ ok t := by
  obtain ⟨t, ht, hok⟩ := hex
  have hne : pattern ≠ [] := ne_nil_of_mem ht
  obtain ⟨i, hi, rfl⟩ := getElem_of_mem ht
  obtain ⟨j, hj, hji⟩ := hat i hi
  have htest : ∀ k, ∃ b, (pattern[modulo (at_ k) pattern.length]?).map ok = some b ∧
      (b = true ↔ ∃ t, pattern[modulo (at_ k) pattern.length]? = some t ∧ ok t) := by
    intro k
    obtain ⟨t, ht⟩ := exists_slot hne (at_ k)
    exact ⟨ok t, by rw [ht]; rfl, by simp [ht]⟩
  obtain ⟨k, hk, h1, h2, h3, h4⟩ := firstFrom_eq_some htest
    ⟨pattern[i], by rw [hji, getElem?_eq_getElem hi], hok⟩ (hj.trans_le hfuel)
  refine ⟨k, hk, h1, by omega, h3, fun j' hj1 hj2 => ?_⟩
  obtain ⟨t, ht⟩ := exists_slot hne (at_ j')
  exact ⟨t, ht, fun hok => h4 j' hj1 hj2 ⟨t, ht, hok⟩⟩

theorem firstFrom_mono {p : Nat → Option Bool} {k : Nat} :
    ∀ {fuel fuel' n : Nat}, firstFrom p fuel n = some k → fuel ≤ fuel' →
      firstFrom p fuel' n = some k
  | 0, _, _, h, _ => by cases h
  | fuel + 1, 0, _, _, hle => absurd hle (Nat.not_succ_le_zero _)
  | fuel + 1, fuel' + 1, n, h, hle => by
    rw [firstFrom] at h ⊢
    obtain ⟨b, hb, h⟩ := bind_eq_some_iff.1 h
    rw [hb, bind_some]
    split at h
    · next hb => rw [if_pos hb, h]
    · next hb => rw [if_neg hb, firstFrom_mono h (Nat.le_of_succ_le_succ hle)]

variable {t : SlotType}

theorem not_lt_s_iff : (!decide (t.val < SlotType.s.val)) = true ↔ t ≠ .dl := by
  cases t <;> decide

theorem not_gt_f_iff : (!decide (t.val > SlotType.f.val)) = true ↔ t ≠ .ul := by
  cases t <;> decide

/-- What a DCI for the position `pos` has to satisfy: its slot is not UL, is at least `n` slots
before the position, and all slots later than it that are have UL only. -/
structure DciSlot (pattern : List SlotType) (n i k : Nat) : Prop where
  notUl : ∃ t, pattern[i]? = some t ∧ t ≠ .ul
  delay : n ≤ k
  latest : ∀ j, n ≤ j → j < k → pattern[(i + (k - j)) % pattern.length]? = some .ul

/-- What the feedback of the position `pos` has to satisfy: it comes at least `n1` slots later, in
the first such slot that has UL control. -/
structure HarqSlot (pattern : List SlotType) (pos n1 k1 : Nat) : Prop where
  hasUl : ∃ t, pattern[(pos + k1) % pattern.length]? = some t ∧ t.hasUl
  delay : n1 ≤ k1
  first : ∀ j, n1 ≤ j → j < k1 → pattern[(pos + j) % pattern.length]? = some .dl

theorem returnDciSlot_eq_some (hex : ∃ t ∈ pattern, t ≠ .ul) (hpos : pos < pattern.length) :
    ∃ d, (∀ fuel, pattern.length ≤ fuel → returnDciSlot fuel pattern pos n = some d) ∧
      d.indexDci < pattern.length ∧ (d.indexDci + d.k) % pattern.length = pos ∧
      d.k < n + pattern.length ∧ DciSlot pattern n d.indexDci d.k := by
  have hm : 0 < pattern.length := Nat.zero_lt_of_lt hpos
  obtain ⟨k, hk, h1, h2, ⟨t, ht, hok⟩, h4⟩ := firstFrom_slot (n := n)
    (fun t => !decide (t.val > SlotType.f.val)) (fun k => (pos : Int) - k)
    (hex.imp fun t h => ⟨h.1, not_gt_f_iff.2 h.2⟩) (fun i hi => by
      obtain ⟨j, hj, hji⟩ := (exists_modulo_eq ((pos : Int) - n) hi).2
      refine ⟨j, hj, ?_⟩
      rwa [Int.natCast_add, ← sub_sub]) le_rfl
  refine ⟨⟨modulo ((pos : Int) - k) pattern.length, k⟩, fun fuel hfuel => ?_, modulo_lt _ hm, ?_,
    h2, ⟨t, ht, not_gt_f_iff.1 hok⟩, h1, fun j hj1 hj2 => ?_⟩
  · rw [returnDciSlot, firstFrom_mono hk hfuel]
    rfl
  · have := modulo_sub_add (pos : Int) (Nat.zero_le k) hm
    rw [Nat.sub_zero] at this
    rw [this, Int.natCast_zero, sub_zero]
    have h0 := modulo_add pos 0 hm
    rw [Int.natCast_zero, add_zero, add_zero] at h0
    rw [h0, Nat.mod_eq_of_lt hpos]
  · obtain ⟨t', ht', hno⟩ := h4 j hj1 hj2
    rw [modulo_sub_add (pos : Int) hj2.le hm, ht']
    rw [not_gt_f_iff, not_not] at hno
    rw [hno]

theorem returnHarqSlot_eq_some (n1 : Nat) (hex : ∃ t ∈ pattern, t ≠ .dl)
    (hpos : pos < pattern.length) :
    ∃ k1, (∀ fuel, pattern.length ≤ fuel → returnHarqSlot fuel pattern pos n1 = some k1) ∧
      HarqSlot pattern pos n1 k1 := by
  have hm : 0 < pattern.length := Nat.zero_lt_of_lt hpos
  obtain ⟨k, hk, h1, -, ⟨t, ht, hok⟩, h4⟩ := firstFrom_slot (n := n1)
    (fun t => !decide (t.val < SlotType.s.val)) (fun k => (pos : Int) + k)
    (hex.imp fun t h => ⟨h.1, not_lt_s_iff.2 h.2⟩) (fun i hi => by
      obtain ⟨j, hj, hji⟩ := (exists_modulo_eq ((pos : Int) + n1) hi).1
      refine ⟨j, hj, ?_⟩
      rwa [Int.natCast_add, ← add_assoc]) le_rfl
  rw [modulo_add _ _ hm] at ht
  refine ⟨k, fun fuel hfuel => firstFrom_mono hk hfuel, ⟨t, ht, ?_⟩, h1, fun j hj1 hj2 => ?_⟩
  · have hdl := not_lt_s_iff.1 hok
    cases t
    · exact absurd rfl hdl
    all_goals rfl
  · obtain ⟨t', ht', hno⟩ := h4 j hj1 hj2
    rw [modulo_add _ _ hm] at ht'
    rw [not_lt_s_iff, not_not] at hno
    rw [ht', hno]

end search

/-! ## The loop over the positions -/

section fill
variable {g : List SlotType} {fuel n n0 n2 n1 lat p : Nat} {l : List Nat} {has : SlotType → Bool}

/-- The DCI slot of a position. -/
def dciSlotOf (g : List SlotType) (n p : Nat) : DciKPair :=
  (returnDciSlot g.length g p n).getD ⟨0, 0⟩

/-- The feedback slot of a position. -/
def harqSlotOf (g : List SlotType) (n1 p : Nat) : Nat := (returnHarqSlot g.length g p n1).getD 0

/-- The positions of a list that have a kind of slot. -/
def positions (has : SlotType → Bool) (g : List SlotType) (l : List Nat) : List Nat :=
  l.filter fun i => (g[i]?).any has

/-- The table of the DCIs to send for positions of a list. -/
def sendTable (g : List SlotType) (n : Nat) (ps : List Nat) : Table :=
  Table.fill (fun p => (dciSlotOf g n p).indexDci) (fun p => (dciSlotOf g n p).k) ps []

/-- The table of the allocations to generate for them. -/
def generateTable (g : List SlotType) (n lat : Nat) (ps : List Nat) : Table :=
  Table.fill (fun p => modulo ((dciSlotOf g n p).indexDci - (lat : Int)) g.length)
    (fun p => (dciSlotOf g n p).k + lat) ps []

/-- The structures after the positions of a list. -/
def filled (g : List SlotType) (n0 n2 n1 lat : Nat) (l : List Nat) : Structures where
  toSendDl := sendTable g n0 (positions (·.hasDl) g l)
  toSendUl := sendTable g n2 (positions (·.hasUlData) g l)
  generateDl := generateTable g n0 lat (positions (·.hasDl) g l)
  generateUl := generateTable g n2 lat (positions (·.hasUlData) g l)
  dlHarqfbPosition := (positions (·.hasDl) g l).map fun p => (p, harqSlotOf g n1 p)

/-- The two searches end: some slot is not UL, and some slot is not DL. -/
structure Searchable (g : List SlotType) : Prop where
  dci : ∃ t ∈ g, t ≠ .ul
  harq : ∃ t ∈ g, t ≠ .dl

theorem searchable_of_isTdd (hne : g ≠ []) (h : isTdd g) : Searchable g := by
  rw [isTdd] at h
  split at h
  · next hf =>
    have hf : SlotType.f ∈ g := by simpa using hf
    exact ⟨⟨.f, hf, by decide⟩, ⟨.f, hf, by decide⟩⟩
  · obtain ⟨t, ht⟩ := exists_mem_of_ne_nil g hne
    by_cases hul : SlotType.ul ∈ g
    · have hdl : SlotType.dl ∈ g := by simpa [hul] using h
      exact ⟨⟨.dl, hdl, by decide⟩, ⟨.ul, hul, by decide⟩⟩
    · have hdl : SlotType.dl ∉ g := by simpa [hul] using h
      exact ⟨⟨t, ht, fun h => hul (h ▸ ht)⟩, ⟨t, ht, fun h => hdl (h ▸ ht)⟩⟩

theorem searchable_replicate {N : Nat} (hN : 0 < N) : Searchable (replicate N .f) :=
  ⟨⟨.f, by simp [hN.ne'], by decide⟩, ⟨.f, by simp [hN.ne'], by decide⟩⟩

theorem Searchable.dciSlotOf_spec (h : Searchable g) (hp : p < g.length) (n : Nat) :
    (∀ fuel, g.length ≤ fuel → returnDciSlot fuel g p n = some (dciSlotOf g n p)) ∧
      (dciSlotOf g n p).indexDci < g.length ∧
      ((dciSlotOf g n p).indexDci + (dciSlotOf g n p).k) % g.length = p ∧
      (dciSlotOf g n p).k < n + g.length ∧
      DciSlot g n (dciSlotOf g n p).indexDci (dciSlotOf g n p).k := by
  obtain ⟨d, hd, hspec⟩ := returnDciSlot_eq_some (n := n) h.dci hp
  have heq : dciSlotOf g n p = d := by rw [dciSlotOf, hd _ le_rfl, getD_some]
  rw [heq]
  exact ⟨hd, hspec⟩

theorem Searchable.harqSlotOf_spec (h : Searchable g) (hp : p < g.length) (n1 : Nat) :
    (∀ fuel, g.length ≤ fuel → returnHarqSlot fuel g p n1 = some (harqSlotOf g n1 p)) ∧
      HarqSlot g p n1 (harqSlotOf g n1 p) := by
  obtain ⟨k1, hk, hspec⟩ := returnHarqSlot_eq_some n1 h.harq hp
  have heq : harqSlotOf g n1 p = k1 := by rw [harqSlotOf, hk _ le_rfl, getD_some]
  rw [heq]
  exact ⟨hk, hspec⟩

theorem positions_concat (ht : g[p]? = some t) :
    positions has g (l ++ [p]) = if has t then positions has g l ++ [p] else positions has g l := by
  by_cases h : has t <;> simp [positions, filter_append, ht, h]

variable {ps : List Nat}

theorem sendTable_concat : sendTable g n (ps ++ [p]) =
    (sendTable g n ps).pushBack (dciSlotOf g n p).indexDci (dciSlotOf g n p).k :=
  Table.fill_concat

theorem generateTable_concat : generateTable g n lat (ps ++ [p]) =
    (generateTable g n lat ps).pushBack
      (modulo ((dciSlotOf g n p).indexDci - (lat : Int)) g.length) ((dciSlotOf g n p).k + lat) :=
  Table.fill_concat

theorem generateDciMaps_eq (h : Searchable g) (hp : p < g.length) (hfuel : g.length ≤ fuel) :
    generateDciMaps fuel g (sendTable g n ps, generateTable g n lat ps) p n lat =
      some (sendTable g n (ps ++ [p]), generateTable g n lat (ps ++ [p])) := by
  rw [generateDciMaps, (h.dciSlotOf_spec hp n).1 fuel hfuel, sendTable_concat, generateTable_concat]
  rfl

theorem insertHarq_eq {f : Nat → Nat} (hp : p ∉ l) :
    insertHarq (l.map fun p => (p, f p)) p (f p) = (l ++ [p]).map fun p => (p, f p) := by
  have h : (l.map fun p => (p, f p)).any (·.1 == p) = false := by
    simp only [List.any_map, List.any_eq_false, Function.comp_apply, beq_iff_eq]
    intro q hq heq
    exact hp (heq ▸ hq)
  simp [insertHarq, h]

theorem generateAt_filled (h : Searchable g) (hfuel : g.length ≤ fuel) (hp : p < g.length)
    (hl : p ∉ l) :
    generateAt fuel g n0 n2 n1 lat (filled g n0 n2 n1 lat l) p =
      some (filled g n0 n2 n1 lat (l ++ [p])) := by
  have hharq := (h.harqSlotOf_spec hp n1).1 fuel hfuel
  have hnot : ∀ has, p ∉ positions has g l := fun has hmem => hl (mem_of_mem_filter hmem)
  have ht : g[p]? = some g[p] := getElem?_eq_getElem hp
  rw [generateAt, ht]
  -- the tables of the kinds that the slot has get the position, the others stay
  cases htype : g[p] with
  | ul =>
    rw [htype] at ht
    simp only [generateUlAt, filled, generateDciMaps_eq h hp hfuel, map_some, positions_concat ht]
    rfl
  | dl =>
    rw [htype] at ht
    simp only [generateDlAt, harqAt, filled, generateDciMaps_eq h hp hfuel, map_some, hharq,
      bind_eq_bind, bind_some, insertHarq_eq (hnot _), positions_concat ht]
    rfl
  | s =>
    rw [htype] at ht
    simp only [generateDlAt, harqAt, filled, generateDciMaps_eq h hp hfuel, map_some, hharq,
      bind_eq_bind, bind_some, insertHarq_eq (hnot _), positions_concat ht]
    rfl
  | f =>
    rw [htype] at ht
    simp only [generateDlAt, generateUlAt, harqAt, filled, generateDciMaps_eq h hp hfuel,
      map_some, hharq, bind_eq_bind, bind_some, insertHarq_eq (hnot _),
      positions_concat ht]
    rfl

theorem foldlM_generateAt (h : Searchable g) (hfuel : g.length ≤ fuel) (hl : ∀ i ∈ l, i < g.length)
    (hnodup : l.Nodup) :
    l.foldlM (generateAt fuel g n0 n2 n1 lat) {} = some (filled g n0 n2 n1 lat l) := by
  induction l using reverseRecOn with
  | nil => rfl
  | append_singleton l p ih =>
    rw [nodup_append] at hnodup
    rw [foldlM_append, ih (fun i hi => hl i (by simp [hi])) hnodup.1]
    simp only [bind_eq_bind, bind_some, foldlM_cons, foldlM_nil]
    rw [generateAt_filled h hfuel (hl p (by simp)) fun hp => hnodup.2.2 p hp p (by simp) rfl]
    rfl

end fill

/-! ## Coverage -/

section covers
variable {g : List SlotType} {n lat : Nat} {has : SlotType → Bool}

/-- What the two tables of a direction have to satisfy: over the periodic extension of the pattern
every position of the direction is the target of exactly one entry of each and no other position is,
and every DCI is sent in the right slot. -/
structure Covers (pattern : List SlotType) (has : SlotType → Bool) (n : Nat)
    (toSend generate : Table) : Prop where
  sent : ∀ p < pattern.length, (toSend.targets pattern.length).count p =
    if (pattern[p]?).any has then 1 else 0
  generated : ∀ p < pattern.length, (generate.targets pattern.length).count p =
    if (pattern[p]?).any has then 1 else 0
  dci : toSend.All (DciSlot pattern n)

theorem mem_positions {p N : Nat} : p ∈ positions has g (List.range N) ↔ p < N ∧
    (g[p]?).any has := by
  simp [positions]

theorem nodup_positions {N : Nat} : (positions has g (List.range N)).Nodup :=
  List.nodup_range.filter _

theorem modulo_sub_add_lat {p i k : Nat} (hm : 0 < g.length) (hi : (i + k) % g.length = p) :
    (modulo ((i : Int) - lat) g.length + (k + lat)) % g.length = p := by
  have h := modulo_sub_add (i : Int) (Nat.zero_le lat) hm
  have h0 := modulo_add i 0 hm
  rw [Int.natCast_zero, add_zero, add_zero] at h0
  rw [Nat.sub_zero, Int.natCast_zero, sub_zero, h0] at h
  rw [Nat.add_comm k lat, ← Nat.add_assoc, Nat.add_mod, h, ← Nat.add_mod, hi]

theorem count_positions {p : Nat} (hp : p < g.length) :
    (positions has g (List.range g.length)).count p = if (g[p]?).any has then 1 else 0 := by
  split
  · next h => exact count_eq_one_of_mem nodup_positions (mem_positions.2 ⟨hp, h⟩)
  · next h => exact count_eq_zero.2 fun hmem => h (mem_positions.1 hmem).2

theorem Searchable.covers (h : Searchable g) (n lat : Nat) (has : SlotType → Bool) :
    Covers g has n (sendTable g n (positions has g (List.range g.length)))
      (generateTable g n lat (positions has g (List.range g.length))).sorted where
  sent p hp := by
    rw [← count_positions hp]
    exact (Table.targets_fill fun q hq =>
      (h.dciSlotOf_spec (mem_positions.1 hq).1 n).2.2.1).count_eq p
  generated p hp := by
    rw [← count_positions hp]
    refine (Table.targets_sorted.trans (Table.targets_fill fun q hq => ?_)).count_eq p
    exact modulo_sub_add_lat (Nat.zero_lt_of_lt hp)
      (h.dciSlotOf_spec (mem_positions.1 hq).1 n).2.2.1
  dci := Table.all_fill fun q hq => (h.dciSlotOf_spec (mem_positions.1 hq).1 n).2.2.2.2

end covers

/-! ## Runs -/

section runs
variable {g pattern : List SlotType} {fuel n0 n2 n1 lat n : Nat} {has : SlotType → Bool}

/-- The structures of a searchable pattern that is generated for as it is. -/
def structuresOf (g : List SlotType) (n0 n2 n1 lat : Nat) : Structures :=
  let st := filled g n0 n2 n1 lat (List.range g.length)
  { st with generateUl := st.generateUl.sorted, generateDl := st.generateDl.sorted }

theorem generateStructuresFromPattern_eq (hne : pattern ≠ []) (htdd : isTdd pattern)
    (hfuel : pattern.length ≤ fuel) :
    generateStructuresFromPattern fuel pattern n0 n2 n1 lat {} =
      some (structuresOf pattern n0 n2 n1 lat) := by
  rw [generateStructuresFromPattern, generationPattern, if_pos htdd,
    foldlM_generateAt (searchable_of_isTdd hne htdd) hfuel (fun i hi => mem_range.1 hi) nodup_range]
  simp only [map_some, clearFdd, if_pos htdd]
  rfl

/-- The calls of one direction for a slot. -/
def indicated (direction : Direction) (t : Nat) (l : List Indication) : Nat :=
  l.countP fun i => i.direction = direction ∧ i.targetSlot.normalize = t

@[simp]
theorem indicated_append {direction : Direction} {t : Nat} {l l' : List Indication} :
    indicated direction t (l ++ l') = indicated direction t l + indicated direction t l' :=
  countP_append

/-- `Add` and `Normalize` give the exact instant `k` slots after a slot, and its exact number. -/
def Reaches (currentSlot : SfnSf) (k : Nat) : Prop :=
  currentSlot.addUint k = some (currentSlot.add k) ∧
    (currentSlot.add k).normalizeUint = (currentSlot.add k).normalize

variable {currentSlot : SfnSf}

theorem reaches_of_not_wraps (h : currentSlot.InFrame) {k : Nat} (hk : k < 2 ^ 31)
    (hw : ¬ (currentSlot.add k).Wraps) : Reaches currentSlot k :=
  ⟨h.addUint_of_not_wraps hk hw, (h.add k).normalizeUint_of_not_wraps hw⟩

theorem indicate_eq_some (hne : pattern ≠ []) (direction : Direction)
    {ks : List Nat} (hks : ∀ k ∈ ks, Reaches currentSlot k) :
    ∃ l, indicate pattern direction currentSlot ks = some l ∧
      ∀ t, indicated direction t l = ks.countP (fun k => currentSlot.normalize + k = t) ∧
        ∀ d ≠ direction, indicated d t l = 0 := by
  induction ks with
  | nil => exact ⟨[], rfl, fun t => ⟨rfl, fun _ _ => rfl⟩⟩
  | cons k ks ih =>
    obtain ⟨⟨hadd, hnorm⟩, hrest⟩ := forall_mem_cons.1 hks
    obtain ⟨l, hl, hcount⟩ := ih hrest
    have hlt : (currentSlot.add k).normalize % pattern.length < pattern.length :=
      Nat.mod_lt _ (length_pos_iff.2 hne)
    refine ⟨⟨direction, currentSlot.add k, pattern[(currentSlot.add k).normalize % pattern.length]⟩
      :: l, ?_, fun t => ⟨?_, fun d hd => ?_⟩⟩
    · rw [indicate] at hl ⊢
      rw [mapM_cons, hl, hadd]
      simp only [bind_eq_bind, bind_some, hnorm, getElem?_eq_getElem hlt]
      rfl
    · have h := (hcount t).1
      rw [indicated] at h ⊢
      rw [List.countP_cons, List.countP_cons, h]
      simp
    · have h := (hcount t).2 d hd
      rw [indicated] at h ⊢
      rw [List.countP_cons, h]
      simp [hd.symm]

/-- The table of a direction. -/
def Structures.generate (st : Structures) : Direction → Table
  | .dl => st.generateDl
  | .ul => st.generateUl

/-- The offsets of a direction that lead from a slot to another. -/
def due (m : Nat) (T : Table) (t s : Nat) : Nat := (T.offsets (s % m)).countP fun k => s + k = t

/-- The offsets of the slots that are indicated in a slot. -/
def dueOffsets (pattern : List SlotType) (st : Structures) (currentSlot : SfnSf) : List Nat :=
  st.generateUl.offsets (currentSlot.normalize % pattern.length) ++
    st.generateDl.offsets (currentSlot.normalize % pattern.length)

/-- The product of `Normalize` does not wrap for a slot, nor for those that are indicated in it. -/
def SlotFits (pattern : List SlotType) (st : Structures) (currentSlot : SfnSf) : Prop :=
  ¬ currentSlot.Wraps ∧ ∀ k ∈ dueOffsets pattern st currentSlot,
    k < 2 ^ 31 ∧ ¬ (currentSlot.add k).Wraps
deriving Decidable

variable {st : Structures}

theorem callMacForSlotIndication_eq_some (hne : pattern ≠ [])
    (hst : ¬ (st.generateDl.isEmpty && st.generateUl.isEmpty))
    (hframe : currentSlot.InFrame) (hfits : SlotFits pattern st currentSlot) :
    ∃ l, callMacForSlotIndication pattern st currentSlot = some l ∧ ∀ direction t,
      indicated direction t l = due pattern.length (st.generate direction) t
        currentSlot.normalize := by
  have hdue : ∀ k ∈ dueOffsets pattern st currentSlot, Reaches currentSlot k := fun k hk =>
    reaches_of_not_wraps hframe (hfits.2 k hk).1 (hfits.2 k hk).2
  obtain ⟨ul, hul, hcul⟩ := indicate_eq_some hne .ul fun k hk => hdue k (mem_append.2 (.inl hk))
  obtain ⟨dl, hdl, hcdl⟩ := indicate_eq_some hne .dl fun k hk => hdue k (mem_append.2 (.inr hk))
  refine ⟨ul ++ dl, ?_, fun direction t => ?_⟩
  · rw [callMacForSlotIndication, if_neg hst, hframe.normalizeUint_of_not_wraps hfits.1]
    simp only [hul, hdl, bind_eq_bind, bind_some]
    rfl
  · rw [indicated_append]
    cases direction with
    | dl => rw [(hcul t).2 .dl (by decide), (hcdl t).1, Nat.zero_add]; rfl
    | ul => rw [(hcul t).1, (hcdl t).2 .ul (by decide), Nat.add_zero]; rfl

/-- Between slots the channel is granted or not asked for. -/
def ChannelStatus.atSlot (status : ChannelStatus) : Prop := status = .granted ∨ status = .none

theorem startSlotChannel_calls (input : SlotInput) {status : ChannelStatus} (h : status.atSlot) :
    (startSlotChannel input status).1 = true ∧
      (endSlotChannel input (startSlotChannel input status).2).atSlot := by
  obtain ⟨wants, release, lost⟩ := input
  rcases h with rfl | rfl <;> cases wants <;> cases release <;> cases lost <;>
    simp [startSlotChannel, doStartSlot, requestAccess, endSlotChannel, ChannelStatus.atSlot]

theorem slot_eq_some (hne : pattern ≠ [])
    (hst : ¬ (st.generateDl.isEmpty && st.generateUl.isEmpty)) {s : Slots} (input : SlotInput)
    (hs : s.channelStatus.atSlot) (hframe : s.currentSlot.InFrame)
    (hfits : SlotFits pattern st s.currentSlot) :
    ∃ s', slot pattern st s input = some s' ∧ s'.channelStatus.atSlot ∧
      s'.currentSlot = s.currentSlot.add 1 ∧
      ∀ direction t, indicated direction t s'.indications = indicated direction t s.indications +
        due pattern.length (st.generate direction) t s.currentSlot.normalize := by
  obtain ⟨l, hl, hcount⟩ := callMacForSlotIndication_eq_some hne hst hframe hfits
  obtain ⟨hcalls, hstatus⟩ := startSlotChannel_calls input hs
  have hlose : s.channelStatus ≠ .toLose := by
    rcases hs with h | h <;> rw [h] <;> decide
  refine ⟨⟨s.currentSlot.add 1, endSlotChannel input (startSlotChannel input s.channelStatus).2,
    s.indications ++ l⟩, ?_, hstatus, rfl, fun direction t => ?_⟩
  · simp only [slot, if_neg hlose, hcalls, if_true, hl, hframe.addUint_one hfits.1, bind_eq_bind,
      bind_some]
    rfl
  · rw [indicated_append, hcount]

/-- A run of slots, from the start of the event loop. -/
def runSlots (pattern : List SlotType) (st : Structures) (start : SfnSf)
    (inputs : List SlotInput) : Option Slots :=
  inputs.foldlM (slot pattern st) { currentSlot := start }

/-- The slots of a run have their fields in range, and neither they nor the slots that are indicated
in them wrap. -/
structure RunFits (pattern : List SlotType) (st : Structures) (start : SfnSf) (n : Nat) : Prop where
  inFrame : start.InFrame
  slots : ∀ i < n, SlotFits pattern st (start.add i)

theorem runSlots_eq_some (hne : pattern ≠ [])
    (hst : ¬ (st.generateDl.isEmpty && st.generateUl.isEmpty)) {start : SfnSf}
    {inputs : List SlotInput} (hfits : RunFits pattern st start inputs.length) :
    ∃ s, runSlots pattern st start inputs = some s ∧ s.channelStatus.atSlot ∧
      s.currentSlot = start.add inputs.length ∧
      ∀ direction t, indicated direction t s.indications =
        ((range' start.normalize inputs.length).map
          (due pattern.length (st.generate direction) t)).sum := by
  induction inputs using reverseRecOn with
  | nil => exact ⟨_, rfl, .inr rfl, hfits.inFrame.add_zero.symm, fun _ _ => rfl⟩
  | append_singleton inputs input ih =>
    rw [length_append, length_singleton] at hfits ⊢
    obtain ⟨s, hs, hstatus, hslot, hcount⟩ :=
      ih ⟨hfits.inFrame, fun i hi => hfits.slots i (Nat.lt_succ_of_lt hi)⟩
    obtain ⟨s', hs', hstatus', hslot', hcount'⟩ := slot_eq_some hne hst input hstatus
      (hslot ▸ hfits.inFrame.add _) (hslot ▸ hfits.slots _ (Nat.lt_succ_self _))
    refine ⟨s', ?_, hstatus', by rw [hslot', hslot, hfits.inFrame.add_add_one],
      fun direction t => ?_⟩
    · rw [runSlots] at hs ⊢
      rw [foldlM_append, hs]
      simpa using hs'
    · rw [hcount', hcount, hslot, SfnSf.normalize_add, range'_concat, map_append, sum_append]
      simp

theorem Searchable.sum_due (h : Searchable g) {a N t : Nat} (n lat : Nat) (has : SlotType → Bool)
    (hstart : a + (n + g.length + lat) ≤ t) (hend : t < a + N) :
    ((range' a N).map (due g.length
      (generateTable g n lat (positions has g (List.range g.length))).sorted t)).sum =
      if (g[t % g.length]?).any has then 1 else 0 := by
  have hm : 0 < g.length := by
    obtain ⟨t, ht, -⟩ := h.dci
    exact length_pos_of_mem ht
  have ht : t % g.length < g.length := Nat.mod_lt _ hm
  have hdue : ∀ T : Table, due g.length T.sorted t = due g.length T t := by
    intro T
    funext s
    rw [due, due, Table.offsets_sorted]
    exact (mergeSort_perm _ _).countP_eq _
  have hk := (h.dciSlotOf_spec ht n).2.2.2.1
  have key := Table.sum_count_fill (m := g.length) (t := t)
    (fun p => modulo ((dciSlotOf g n p).indexDci - (lat : Int)) g.length)
    (fun p => (dciSlotOf g n p).k + lat)
      (nodup_positions : (positions has g (List.range g.length)).Nodup)
    (fun p hp => modulo_sub_add_lat hm (h.dciSlotOf_spec (mem_positions.1 hp).1 n).2.2.1)
    (fun p _ => modulo_lt _ hm) (a := a) (N := N) (by omega) hend
  rw [hdue]
  refine Eq.trans key ?_
  simp only [mem_positions, ht, true_and]

theorem Searchable.generates (n0 n2 n1 lat : Nat) (h : Searchable g) :
    ¬ ((structuresOf g n0 n2 n1 lat).generateDl.isEmpty &&
      (structuresOf g n0 n2 n1 lat).generateUl.isEmpty) := by
  obtain ⟨t, ht, hul⟩ := h.dci
  obtain ⟨i, hi, rfl⟩ := getElem_of_mem ht
  intro hempty
  rw [Bool.and_eq_true, List.isEmpty_iff] at hempty
  have hcount := (h.covers n0 lat (·.hasDl)).generated i hi
  have hdl : (g[i]?).any (·.hasDl) := by
    rw [getElem?_eq_getElem hi]
    cases hgi : g[i] <;> simp_all [SlotType.hasDl]
  rw [if_pos hdl, show (generateTable g n0 lat _).sorted = [] from hempty.1] at hcount
  exact absurd hcount (by simp [Table.targets])

/-- What the structures of a pattern have to satisfy for the delays and the control latency. -/
structure TimingOk (pattern : List SlotType) (n0 n1 n2 : Nat) (st : Structures) : Prop where
  dl : Covers pattern (·.hasDl) n0 st.toSendDl st.generateDl
  ul : Covers pattern (·.hasUlData) n2 st.toSendUl st.generateUl
  harq : ∀ p < pattern.length, (pattern[p]?).any (·.hasDl) →
    ∃ k1, st.dlHarqfbPosition.lookup p = some k1 ∧ HarqSlot pattern p n1 k1

/-- What a run of a pattern has to satisfy: it goes from slot to slot, and after the start-up every
slot is indicated to the MAC exactly once in each direction that it has. -/
def RunOk (pattern : List SlotType) (n0 n2 lat : Nat) (st : Structures) (start : SfnSf)
    (inputs : List SlotInput) : Prop :=
  ∃ s, runSlots pattern st start inputs = some s ∧
    s.currentSlot.normalize = start.normalize + inputs.length ∧
    ∀ t, start.normalize + (max n0 n2 + pattern.length + lat) ≤ t → t < s.currentSlot.normalize →
      indicated .dl t s.indications =
        (if (pattern[t % pattern.length]?).any (·.hasDl) then 1 else 0) ∧
      indicated .ul t s.indications =
        (if (pattern[t % pattern.length]?).any (·.hasUlData) then 1 else 0)

theorem lookup_map_of_mem {f : Nat → Nat} {l : List Nat} {p : Nat} (hp : p ∈ l) :
    (l.map fun p => (p, f p)).lookup p = some (f p) := by
  induction l with
  | nil => exact absurd hp not_mem_nil
  | cons q l ih =>
    rw [map_cons, lookup_cons]
    by_cases hpq : p = q
    · simp [hpq]
    · have hmem : p ∈ l := (mem_cons.1 hp).resolve_left hpq
      simpa [beq_false_of_ne hpq] using ih hmem

theorem Searchable.timingOk (h : Searchable g) :
    TimingOk g n0 n1 n2 (structuresOf g n0 n2 n1 lat) where
  dl := h.covers n0 lat (·.hasDl)
  ul := h.covers n2 lat (·.hasUlData)
  harq p hp hdl := by
    refine ⟨_, lookup_map_of_mem (mem_positions.2 ⟨hp, hdl⟩), ?_⟩
    exact (h.harqSlotOf_spec hp n1).2

theorem Searchable.runOk (h : Searchable g) {start : SfnSf} {inputs : List SlotInput}
    (hfits : RunFits g (structuresOf g n0 n2 n1 lat) start inputs.length) :
    RunOk g n0 n2 lat (structuresOf g n0 n2 n1 lat) start inputs := by
  have hne : g ≠ [] := by
    obtain ⟨t, ht, -⟩ := h.dci
    exact ne_nil_of_mem ht
  obtain ⟨s, hs, -, hslot, hcount⟩ :=
    runSlots_eq_some hne (h.generates n0 n2 n1 lat) hfits
  have hnorm : s.currentSlot.normalize = start.normalize + inputs.length := by
    rw [hslot, SfnSf.normalize_add]
  refine ⟨s, hs, hnorm, fun t hstart hend => ?_⟩
  rw [hnorm] at hend
  rw [hcount, hcount]
  exact ⟨h.sum_due n0 lat _ (by omega) hend, h.sum_due n2 lat _ (by omega) hend⟩

end runs

/-- For every TDD pattern and all delays the structures are generated, meet the delays, and make
every run whose slots do not wrap indicate every slot once. -/
theorem timing_of_isTdd (pattern : List SlotType) (n0 n1 n2 l1l2CtrlLatency : Nat)
    (hne : pattern ≠ []) (htdd : isTdd pattern) :
    ∃ st, (∀ fuel, pattern.length ≤ fuel →
        generateStructuresFromPattern fuel pattern n0 n2 n1 l1l2CtrlLatency {} = some st) ∧
      TimingOk pattern n0 n1 n2 st ∧ ∀ start inputs, RunFits pattern st start inputs.length →
        RunOk pattern n0 n2 l1l2CtrlLatency st start inputs := by
  have h := searchable_of_isTdd hne htdd
  exact ⟨_, fun fuel hfuel => generateStructuresFromPattern_eq hne htdd hfuel, h.timingOk,
    fun _ _ hfits => h.runOk hfits⟩

/-- A pattern of a DL, a special and a UL slot, from the last slot of a frame on. -/
theorem timing_dl_s_ul :
    isTdd [.dl, .s, .ul] = true ∧ ∃ st,
      generateStructuresFromPattern 3 [.dl, .s, .ul] 0 2 2 2 {} = some st ∧
      TimingOk [.dl, .s, .ul] 0 2 2 st ∧
      RunOk [.dl, .s, .ul] 0 2 2 st ⟨0, 9, 1, 1⟩ (replicate 20 ⟨true, false, false⟩) := by
  refine ⟨by decide, ?_⟩
  obtain ⟨st, hst, hok, hrun⟩ := timing_of_isTdd [.dl, .s, .ul] 0 2 2 2 (by decide) (by decide)
  refine ⟨st, hst 3 le_rfl, hok, hrun _ _ ⟨by constructor <;> decide, ?_⟩⟩
  have hst' : generateStructuresFromPattern 3 [.dl, .s, .ul] 0 2 2 2 {} =
      some (structuresOf [.dl, .s, .ul] 0 2 2 2) :=
    generateStructuresFromPattern_eq (by decide) (by decide) le_rfl
  cases (hst 3 le_rfl).symm.trans hst'
  decide +kernel

/-- At numerology 5 the slot 0 of frame 13421773 has the number 64: the pattern slips, and the slot
4 of that frame, one of DL, is indicated for UL only. -/
theorem pattern_slips : ¬ ∀ (pattern : List SlotType) (n0 n1 n2 l1l2CtrlLatency : Nat),
    pattern ≠ [] → isTdd pattern → ∃ st,
      generateStructuresFromPattern pattern.length pattern n0 n2 n1 l1l2CtrlLatency {} = some st ∧
      TimingOk pattern n0 n1 n2 st ∧ ∀ (start : SfnSf) (inputs : List SlotInput), start.Valid →
        RunOk pattern n0 n2 l1l2CtrlLatency st start inputs := by
  intro h
  obtain ⟨st, hst, -, hrun⟩ := h [.dl, .s, .ul] 0 2 2 2 (by decide) (by decide)
  cases hst.symm.trans (generateStructuresFromPattern_eq (by decide) (by decide) le_rfl)
  obtain ⟨s, hs, hslot, honce⟩ :=
    hrun ⟨13421772, 9, 20, 5⟩ (replicate 24 ⟨false, false, false⟩) (by decide)
  have hcount : (runSlots [.dl, .s, .ul] (structuresOf [.dl, .s, .ul] 0 2 2 2) ⟨13421772, 9, 20, 5⟩
      (replicate 24 ⟨false, false, false⟩)).map (fun s => indicated .dl 4294967364 s.indications) =
      some 0 := by decide +kernel
  rw [hs, map_some, some.injEq] at hcount
  have hone := (honce 4294967364 (by decide) (by rw [hslot]; decide)).1
  rw [hcount] at hone
  exact absurd hone (by decide)

end OranNs3.Phy
