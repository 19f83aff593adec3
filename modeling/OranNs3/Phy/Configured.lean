import OranNs3.Phy.Timing

/-!
# The configured timing

`SetPattern` and the setters of the delays regenerate the structures from the pattern and the delays
of the PHY, each in the same way (`setTddPattern_eq`), so after any sequence of calls the structures
are those of the last pattern and the last delays (`configure_eq`). N0 is not among them:
`SetTddPattern` passes 0, and a DL DCI goes out in the slot of its data. And a pattern without F
that has only one of DL and UL counts as FDD, where special slots make it a UL band (`HasUlSlot`):
its DL allocations are cleared. These are the only ways in which the configured timing is missed
(`honoured_iff`).
-/

namespace OranNs3.Phy

open Cyclic List

/-- A call of the configuration. -/
inductive Call
  | setPattern (pattern : String)
  | setN0Delay (delay : Nat)
  | setN1Delay (delay : Nat)
  | setN2Delay (delay : Nat)
deriving DecidableEq

/-- What a call does. -/
def call (phy : GnbPhy) : Call → Option GnbPhy
  | .setPattern pattern => setPattern phy pattern
  | .setN0Delay delay => setN0Delay phy delay
  | .setN1Delay delay => setN1Delay phy delay
  | .setN2Delay delay => setN2Delay phy delay

variable (calls : List Call)

/-- A sequence of calls on a new PHY. -/
def configure : Option GnbPhy := calls.foldlM call {}

/-- A pattern and delays, as they are asked for. -/
structure Asked where
  pattern : List SlotType := List.replicate 10 .f
  n0 : Nat := 0
  n1 : Nat := 0
  n2 : Nat := 0
deriving DecidableEq

variable (a : Asked)

/-- What one more call asks for: a pattern string stands for its slots. -/
def Asked.after : Call → Asked
  | .setPattern pattern => { a with pattern := (parsePattern pattern).getD a.pattern }
  | .setN0Delay delay => { a with n0 := delay }
  | .setN1Delay delay => { a with n1 := delay }
  | .setN2Delay delay => { a with n2 := delay }

/-- What a sequence of calls asks for: the last value of each kind. -/
def asked : Asked := calls.foldl Asked.after {}

/-- Every pattern string of a sequence of calls is accepted. -/
def Accepted : Prop :=
  ∀ pattern, Call.setPattern pattern ∈ calls → (parsePattern pattern).isSome

/-- There is a DL allocation for every position with DL, every DL DCI is sent at least N0 slots and
every UL DCI at least N2 slots before its slot. -/
structure Honoured (st : Structures) : Prop where
  generates : ∀ p < a.pattern.length, (a.pattern[p]?).any (·.hasDl) →
    p ∈ st.generateDl.targets a.pattern.length
  dl : st.toSendDl.All fun _ k => a.n0 ≤ k
  ul : st.toSendUl.All fun _ k => a.n2 ≤ k

/-! ## The structures after a call -/

section structures
variable {pattern : List SlotType} {n0 n1 n2 lat : Nat}

/-- The structures of any pattern: those of the pattern that is generated for, less what FDD clears.
-/
def configured (pattern : List SlotType) (n2 n1 : Nat) : Structures :=
  let st := clearFdd pattern
    (filled (generationPattern pattern) 0 n2 n1 getL1L2CtrlLatency (List.range pattern.length))
  { st with generateUl := st.generateUl.sorted, generateDl := st.generateDl.sorted }

theorem length_generationPattern : (generationPattern pattern).length = pattern.length := by
  rw [generationPattern]
  split
  · rfl
  · simp

theorem searchable_generationPattern (hne : pattern ≠ []) :
    Searchable (generationPattern pattern) := by
  rw [generationPattern]
  split
  · next h => exact searchable_of_isTdd hne h
  · exact searchable_replicate (length_pos_iff.2 hne)

theorem setTddPattern_eq (phy : GnbPhy) (pattern : List SlotType) :
    setTddPattern phy pattern = some { phy with
      tddPattern := pattern
      structures := configured pattern phy.n2Delay phy.n1Delay } := by
  rcases eq_or_ne pattern [] with rfl | hne
  · rfl
  · rw [setTddPattern, generateStructuresFromPattern,
      foldlM_generateAt (searchable_generationPattern hne) length_generationPattern.le
        (fun i hi => by rw [length_generationPattern]; exact mem_range.1 hi) nodup_range]
    rfl

end structures

section configure
variable {calls : List Call}

/-- A PHY that has what is asked for. -/
structure Has (phy : GnbPhy) : Prop where
  pattern : phy.tddPattern = a.pattern
  n0 : phy.n0Delay = a.n0
  n1 : phy.n1Delay = a.n1
  n2 : phy.n2Delay = a.n2

theorem call_eq_some {a : Asked} {phy : GnbPhy} {c : Call} (h : Has a phy)
    (hc : ∀ pattern, c = .setPattern pattern → (parsePattern pattern).isSome) :
    ∃ phy', call phy c = some phy' ∧ Has (a.after c) phy' ∧
      phy'.structures = configured (a.after c).pattern (a.after c).n2 (a.after c).n1 := by
  cases c with
  | setPattern pattern =>
    obtain ⟨slots, hslots⟩ := Option.isSome_iff_exists.1 (hc pattern rfl)
    have hcall : call phy (.setPattern pattern) = some { phy with
        tddPattern := slots
        structures := configured slots phy.n2Delay phy.n1Delay } := by
      rw [call, setPattern, hslots, Option.bind_some, setTddPattern_eq]
    refine ⟨_, hcall, ⟨?_, h.n0, h.n1, h.n2⟩, ?_⟩
    · simp [Asked.after, hslots]
    · simp [Asked.after, hslots, h.n1, h.n2]
  | setN0Delay delay =>
    refine ⟨_, setTddPattern_eq _ _, ⟨h.pattern, rfl, h.n1, h.n2⟩, ?_⟩
    simp [Asked.after, h.pattern, h.n1, h.n2]
  | setN1Delay delay =>
    refine ⟨_, setTddPattern_eq _ _, ⟨h.pattern, h.n0, rfl, h.n2⟩, ?_⟩
    simp [Asked.after, h.pattern, h.n2]
  | setN2Delay delay =>
    refine ⟨_, setTddPattern_eq _ _, ⟨h.pattern, h.n0, h.n1, rfl⟩, ?_⟩
    simp [Asked.after, h.pattern, h.n1]

theorem configure_eq (hacc : Accepted calls) :
    ∃ phy, configure calls = some phy ∧ Has (asked calls) phy ∧ (calls ≠ [] →
      phy.structures = configured (asked calls).pattern (asked calls).n2 (asked calls).n1) := by
  induction calls using reverseRecOn with
  | nil => exact ⟨_, rfl, ⟨rfl, rfl, rfl, rfl⟩, fun h => absurd rfl h⟩
  | append_singleton calls c ih =>
    obtain ⟨phy, hphy, hhas, -⟩ := ih fun pattern h => hacc pattern (by simp [h])
    obtain ⟨phy', hphy', hhas', hst⟩ := call_eq_some (c := c) hhas fun pattern h =>
      hacc pattern (by simp [h])
    have hasked : asked (calls ++ [c]) = (asked calls).after c := by simp [asked]
    refine ⟨phy', ?_, hasked ▸ hhas', fun _ => hasked ▸ hst⟩
    rw [configure] at hphy ⊢
    rw [foldlM_append, hphy]
    simpa using hphy'

end configure

/-! ## When the timing is honoured -/

section honoured
variable {pattern : List SlotType} {n0 n1 n2 : Nat}

theorem any_hasDl_generationPattern {p : Nat} (hp : p < pattern.length)
    (h : (pattern[p]?).any (·.hasDl)) : ((generationPattern pattern)[p]?).any (·.hasDl) := by
  rw [generationPattern]
  split
  · exact h
  · simp [hp, SlotType.hasDl]

theorem sendTable_zero (h : Searchable pattern) :
    (sendTable pattern 0 (positions (·.hasDl) pattern (List.range pattern.length))).All
      fun _ k => k = 0 := by
  refine Table.all_fill fun p hp => ?_
  obtain ⟨hlt, hdl⟩ := mem_positions.1 hp
  obtain ⟨-, -, htarget, -, hslot⟩ := h.dciSlotOf_spec hlt 0
  by_contra hk
  have hul := hslot.latest 0 le_rfl (Nat.pos_of_ne_zero hk)
  rw [Nat.sub_zero, htarget] at hul
  rw [hul] at hdl
  exact absurd hdl (by decide)

theorem exists_of_mem_targets {m p : Nat} {T : Table} {P : Nat → Nat → Prop} (hp : p ∈ T.targets m)
    (hP : T.All P) : ∃ i k, P i k := by
  obtain ⟨e, he, hmem⟩ := mem_flatMap.1 hp
  obtain ⟨k, hk, -⟩ := mem_map.1 hmem
  exact ⟨e.1, k, hP e he k hk⟩

theorem mem_targets_of_count {has : SlotType → Bool} {g : List SlotType} {T : Table} {p : Nat}
    (hcount : (T.targets g.length).count p = if (g[p]?).any has then 1 else 0)
    (h : (g[p]?).any has) : p ∈ T.targets g.length := by
  rw [if_pos h] at hcount
  exact count_pos_iff.1 (by omega)

theorem toSendDl_configured : (configured pattern n2 n1).toSendDl =
    sendTable (generationPattern pattern) 0
      (positions (·.hasDl) (generationPattern pattern) (List.range pattern.length)) := by
  rw [configured, clearFdd]
  split
  · rfl
  · split <;> rfl

theorem toSendUl_configured : (configured pattern n2 n1).toSendUl =
    sendTable (generationPattern pattern) n2
      (positions (·.hasUlData) (generationPattern pattern) (List.range pattern.length)) := by
  rw [configured, clearFdd]
  split
  · rfl
  · split <;> rfl

theorem generateDl_configured : (configured pattern n2 n1).generateDl =
    if isTdd pattern = false ∧ hasUlSlot pattern then []
    else (generateTable (generationPattern pattern) 0 getL1L2CtrlLatency
      (positions (·.hasDl) (generationPattern pattern) (List.range pattern.length))).sorted := by
  rw [configured, clearFdd]
  by_cases htdd : isTdd pattern
  · simp [htdd, filled]
  · by_cases hul : hasUlSlot pattern
    · simp [htdd, hul, Table.sorted]
    · simp [htdd, hul, filled]

theorem hasUlSlot_iff (hdl : hasDlSlot pattern) (htdd : isTdd pattern = false) :
    hasUlSlot pattern ↔ SlotType.s ∈ pattern := by
  simp only [hasDlSlot, hasUlSlot, any_eq_true, SlotType.hasDl, SlotType.hasUl,
    Bool.or_eq_true, decide_eq_true_eq, isTdd] at *
  have hf : SlotType.f ∉ pattern := fun h => by simp [h] at htdd
  simp only [contains_eq_mem, hf, decide_false] at htdd
  constructor
  · rintro ⟨t, ht, (rfl | rfl) | rfl⟩
    · exact absurd ht hf
    · have hno : SlotType.dl ∉ pattern := by simpa [ht] using htdd
      obtain ⟨t', ht', (rfl | rfl) | rfl⟩ := hdl
      · exact absurd ht' hf
      · exact absurd ht' hno
      · exact ht'
    · exact ht
  · exact fun h => ⟨.s, h, .inr rfl⟩

/-- The structures honour what is asked for when N0 is 0 and the DL allocations are not cleared. -/
theorem honoured_configured (hdl : hasDlSlot a.pattern) :
    Honoured a (configured a.pattern a.n2 a.n1) ↔
      a.n0 = 0 ∧ ¬ (isTdd a.pattern = false ∧ SlotType.s ∈ a.pattern) := by
  have hdl' := hdl
  obtain ⟨t, ht, hhas⟩ := any_eq_true.1 hdl
  have hne : a.pattern ≠ [] := ne_nil_of_mem ht
  obtain ⟨p, hp, rfl⟩ := getElem_of_mem ht
  have hpdl : (a.pattern[p]?).any (·.hasDl) := by
    rw [getElem?_eq_getElem hp]
    exact hhas
  have hsearch := searchable_generationPattern hne
  have hlen : (generationPattern a.pattern).length = a.pattern.length := length_generationPattern
  have hzero := sendTable_zero hsearch
  have hcover := hsearch.covers 0 getL1L2CtrlLatency (·.hasDl)
  have hcoverUl := hsearch.covers a.n2 getL1L2CtrlLatency (·.hasUlData)
  rw [hlen] at hzero hcover hcoverUl
  constructor
  · intro h
    refine ⟨?_, fun ⟨htdd, hs⟩ => ?_⟩
    · have hmem := mem_targets_of_count (hcover.sent p (hlen ▸ hp))
        (any_hasDl_generationPattern hp hpdl)
      have hle := h.dl
      rw [toSendDl_configured] at hle
      obtain ⟨-, k, hk, hk0⟩ := exists_of_mem_targets (P := fun _ k => a.n0 ≤ k ∧ k = 0) hmem
        fun e he k hk => ⟨hle e he k hk, hzero e he k hk⟩
      omega
    · have hmem := h.generates p hp hpdl
      rw [generateDl_configured, if_pos ⟨htdd, (hasUlSlot_iff hdl' htdd).2 hs⟩] at hmem
      exact absurd hmem (by simp [Table.targets])
  · rintro ⟨hn0, hfdd⟩
    refine ⟨fun q hq hqdl => ?_, fun e _ k _ => by omega, ?_⟩
    · rw [generateDl_configured, if_neg fun h => hfdd ⟨h.1, (hasUlSlot_iff hdl' h.1).1 h.2⟩]
      have hmem := mem_targets_of_count (hcover.generated q (hlen ▸ hq))
        (any_hasDl_generationPattern hq hqdl)
      rwa [hlen] at hmem
    · rw [toSendUl_configured]
      exact fun e he k hk => (hcoverUl.dci e he k hk).delay

end honoured

/-- After every sequence of calls that ask for a pattern with DL, the structures honour it exactly
when N0 is 0 and it does not have special slots without counting as TDD. -/
theorem honoured_iff (calls : List Call) (hne : calls ≠ []) (hacc : Accepted calls)
    (hdl : hasDlSlot (asked calls).pattern) :
    ∃ phy, configure calls = some phy ∧ (Honoured (asked calls) phy.structures ↔
        (asked calls).n0 = 0 ∧
          ¬ (isTdd (asked calls).pattern = false ∧ SlotType.s ∈ (asked calls).pattern)) := by
  obtain ⟨phy, hphy, -, hst⟩ := configure_eq hacc
  refine ⟨phy, hphy, ?_⟩
  rw [hst hne]
  exact honoured_configured _ hdl

/-- A pattern of DL, UL and special slots, with N2 changed after it. -/
theorem honoured_dl_ul :
    asked [.setPattern "DL|S|UL|", .setN2Delay 3] = ⟨[.dl, .s, .ul], 0, 0, 3⟩ ∧
      ∃ phy, configure [.setPattern "DL|S|UL|", .setN2Delay 3] = some phy ∧
        Honoured (asked [.setPattern "DL|S|UL|", .setN2Delay 3]) phy.structures := by
  refine ⟨by decide, ?_⟩
  obtain ⟨phy, hphy, hiff⟩ := honoured_iff [.setPattern "DL|S|UL|", .setN2Delay 3] (by decide)
    (fun pattern h => by
      simp only [mem_cons, not_mem_nil, or_false, Call.setPattern.injEq, reduceCtorEq] at h
      rw [h]
      decide) (by decide)
  exact ⟨phy, hphy, hiff.2 (by decide)⟩

/-- With DL and special slots only, nothing is generated for DL; and N0 is not honoured. -/
theorem not_honoured_dl_s :
    (∃ phy, configure [.setPattern "DL|S"] = some phy ∧
      ¬ Honoured (asked [.setPattern "DL|S"]) phy.structures) ∧
    ∃ phy, configure [.setPattern "F|F", .setN0Delay 1] = some phy ∧
      ¬ Honoured (asked [.setPattern "F|F", .setN0Delay 1]) phy.structures := by
  refine ⟨⟨_, rfl, fun h => ?_⟩, _, rfl, fun h => ?_⟩
  · exact absurd (h.generates 0 (by decide) (by decide)) (by decide)
  · exact absurd (h.dl (0, [0]) (by decide) 0 (by decide)) (by decide)

end OranNs3.Phy
