import OranNs3.Lib.Double
import OranNs3.Sched.Ofdma

/-!
# Symbols for beams

The policies that `NrMacSchedulerOfdma` asks for the symbols of the beams
(`nr-mac-scheduler-ofdma-symbol-per-beam.cc`): by load, in rounds, and proportionally fair. The
order of an unordered map is that of its list. By load, the beams get the integral parts of their
shares, and what is left goes to those that have the least, one by one. The shares are computed in
double precision, but their sum is not by as much as one above the symbols (`sum_shares_le`).
-/

namespace OranNs3.Ofdma

open List

open Function (update)

/-- What `ComputeActiveUe` makes: UEs that have bytes, in 32 bits, in the beams that have UEs. -/
structure ActiveLoads extends ActiveUeMap where
  nonempty : ∀ e ∈ beams, e.2 ≠ []
  rnti : ∀ e ∈ beams, ∀ ue ∈ e.2, ue.1 < 2 ^ 16
  bytes : ∀ e ∈ beams, ∀ ue ∈ e.2, 0 < ue.2 ∧ ue.2 < 2 ^ 32

/-- One more symbol for a beam, which gets an entry if it has none. -/
def addSymbol (b : BeamId) : BeamSymbolMap → BeamSymbolMap
  | [] => [(b, 1)]
  | e :: ret => if e.1 = b then (e.1, e.2 + 1) :: ret else e :: addSymbol b ret

/-! ## By load -/

namespace Lb

def bufTotal (active : ActiveUeMap) : ℚ :=
  active.beams.foldl (fun total e => e.2.foldl (fun total ue => Double.round (total + ue.2)) total)
    0

/-- `bufSizeBeam`, in 32 bits. -/
def bufSizeBeam (ues : List (Nat × Nat)) : Nat :=
  ues.foldl (fun size ue => (size + ue.2) % 2 ^ 32) 0

def symForBeam (symAvail : Nat) (bufTotal : ℚ) (bufSizeBeam : Nat) : Nat :=
  ⌊Double.round (bufSizeBeam * Double.round (symAvail / bufTotal))⌋₊

/-- The first of the entries with the least symbols. -/
def minEntry (ret : BeamSymbolMap) : Option (BeamId × Nat) :=
  ret.foldl (fun min e => match min with
    | none => some e
    | some m => if e.2 < m.2 then some e else some m) none

/-- The loop that redistributes symbols. -/
def redistribute : Nat → BeamSymbolMap → BeamSymbolMap
  | 0, ret => ret
  | symToRedistribute + 1, ret =>
    match minEntry ret with
    | none => ret
    | some m => redistribute symToRedistribute (addSymbol m.1 ret)

/-- `GetSymPerBeam`. The symbols that are used and those that are redistributed are in eight bits.
-/
def getSymPerBeam (symAvail : Nat) (active : ActiveUeMap) : Except SchedError BeamSymbolMap :=
  let ret := active.beams.map fun e =>
    (e.1, symForBeam symAvail (bufTotal active) (bufSizeBeam e.2))
  let symUsed := ret.foldl (fun used e => (used + e.2) % 256) 0
  if symAvail < symUsed then .error .assertion
  else .ok (redistribute ((symAvail - symUsed) % 256) ret)

end Lb

/-! ## In rounds -/

namespace Rr

/-- The loop that looks for an active beam, for as many beams as there are at first. The queue is
also rotated behind that beam. -/
def nextBeam (active : List BeamId) : Nat → List BeamId → List BeamId × Option BeamId
  | 0, rrBeams => (rrBeams, none)
  | _ + 1, [] => ([], none)
  | n + 1, b :: rrBeams =>
    if b ∈ active then (rrBeams ++ [b], some b) else nextBeam active n (rrBeams ++ [b])

/-- One symbol. -/
def symbol (active : List BeamId) (st : List BeamId × BeamSymbolMap) :
    List BeamId × BeamSymbolMap :=
  match nextBeam active st.1.length st.1 with
  | (rrBeams, none) => (rrBeams, st.2)
  | (rrBeams, some b) => (rrBeams, addSymbol b st.2)

/-- The loop over the symbols. -/
def symbols (active : List BeamId) : Nat → List BeamId × BeamSymbolMap → List BeamId × BeamSymbolMap
  | 0, st => st
  | symAvail + 1, st => symbols active symAvail (symbol active st)

/-- `GetSymPerBeam`, with the queue. -/
def getSymPerBeam (rrBeams : List BeamId) (symAvail : Nat) (active : ActiveUeMap) :
    List BeamId × BeamSymbolMap :=
  let beams := active.beams.map Prod.fst
  symbols beams symAvail (enqueueBeams rrBeams beams, [])

end Rr

/-! ## Proportionally fair -/

namespace Pf

/-- The previous and the current size of the transport blocks of a beam, and how often it was
scheduled. -/
structure BeamTbs where
  prev : Nat
  curr : Nat
  times : Nat
deriving Inhabited

/-- The variables of the loop over the symbols. -/
structure PfState where
  beams : BeamId → Option BeamTbs
  ueRemainingBuffer : Nat → Nat
  ret : BeamSymbolMap

/-- New beams, and those that were scheduled often. -/
def addBeams (active : ActiveUeMap) (beams : BeamId → Option BeamTbs) : BeamId → Option BeamTbs :=
  active.beams.foldl (fun beams e =>
    match beams e.1 with
    | none => update beams e.1 (some ⟨1, 1, 1⟩)
    | some s => if 200 < s.times then update beams e.1 (some ⟨1, 1, 1⟩) else beams) beams

variable (payloadSize : Nat → Nat)

/-- The mean size of a transport block of the UEs that have bytes left, if there are any. -/
def meanTbs (ueRemainingBuffer : Nat → Nat) (ues : List (Nat × Nat)) : Option Nat :=
  let served := ues.filter fun ue => 0 < ueRemainingBuffer ue.1
  if served = [] then none
  else some (⌊Double.round (served.foldl (fun sum ue => Double.round (sum + payloadSize ue.1)) 0 /
    served.length)⌋₊ % 2 ^ 64)

/-- `currBeamPFMetric`. -/
def metric (s : BeamTbs) : ℚ :=
  Double.round (Double.round s.curr / Double.round (Double.round s.prev / Double.round s.times))

/-- The loop over the beams, with the best one so far and its metric. -/
def bestBeam (payloadSize ueRemainingBuffer : Nat → Nat) (beams : List (BeamId × List (Nat × Nat)))
    (st : (BeamId → Option BeamTbs) × BeamId × ℚ) : (BeamId → Option BeamTbs) × BeamId × ℚ :=
  beams.foldl (fun st e =>
    match meanTbs payloadSize ueRemainingBuffer e.2 with
    | none => st
    | some tbs =>
      let s := { (st.1 e.1).getD default with curr := tbs }
      (update st.1 e.1 (some s), if st.2.2 < metric s then (e.1, metric s) else st.2)) st

/-- The bytes that are allocated are taken from the UEs. -/
def takeBytes : Nat → List (Nat × Nat) → (Nat → Nat) → Nat → Nat
  | _, [], rem => rem
  | bytesAllocated, ue :: ues, rem =>
    if rem ue.1 < bytesAllocated then takeBytes (bytesAllocated - rem ue.1) ues (update rem ue.1 0)
    else update rem ue.1 (rem ue.1 - bytesAllocated)

/-- One symbol. -/
def symbol (active : ActiveUeMap) (st : PfState) : PfState :=
  match bestBeam payloadSize st.ueRemainingBuffer active.beams (st.beams, default, -1) with
  | (beams, best, max) =>
    if max = -1 then { st with beams }
    else
      let s := (beams best).getD default
      let ues := ((Keyed.find? Prod.fst best active.beams).map Prod.snd).getD []
      { beams := update beams best (some { s with
        prev := (s.prev + s.curr) % 2 ^ 64, times := (s.times + 1) % 2 ^ 64 })
        ueRemainingBuffer :=
          takeBytes s.curr (ues.insertionSort fun a b => a.2 ≤ b.2) st.ueRemainingBuffer
        ret := addSymbol best st.ret }

/-- The loop over the symbols. -/
def symbols (payloadSize : Nat → Nat) (active : ActiveUeMap) : Nat → PfState → PfState
  | 0, st => st
  | symAvail + 1, st => symbols payloadSize active symAvail (symbol payloadSize active st)

/-- `GetSymPerBeam`, with the beams that are known. The bytes of a UE are those of its entry. -/
def getSymPerBeam (beams : BeamId → Option BeamTbs) (symAvail : Nat)
    (active : ActiveUeMap) : (BeamId → Option BeamTbs) × BeamSymbolMap :=
  if active.beams = [] then (beams, [])
  else
    let buffer :=
      fun rnti => ((Keyed.find? Prod.fst rnti (active.beams.flatMap Prod.snd)).map Prod.snd).getD 0
    let st := symbols payloadSize active symAvail ⟨addBeams active beams, buffer, []⟩
    (st.beams, st.ret)

end Pf

/-! ## The symbols of a map -/

variable {ret : BeamSymbolMap} {b c : BeamId} {active : ActiveUeMap}

/-- The symbols of all beams. -/
def totalSymbols (ret : BeamSymbolMap) : Nat := (ret.map Prod.snd).sum

theorem totalSymbols_cons (e : BeamId × Nat) (ret : BeamSymbolMap) :
    totalSymbols (e :: ret) = e.2 + totalSymbols ret := by
  rw [totalSymbols, map_cons, sum_cons]
  rfl

theorem totalSymbols_addSymbol : totalSymbols (addSymbol b ret) = totalSymbols ret + 1 := by
  induction ret with
  | nil => rfl
  | cons e ret ih =>
    rw [addSymbol]
    split
    · rw [totalSymbols_cons, totalSymbols_cons]
      omega
    · rw [totalSymbols_cons, totalSymbols_cons, ih]
      omega

theorem mem_keys_addSymbol : c ∈ (addSymbol b ret).map Prod.fst ↔ c = b ∨ c ∈ ret.map Prod.fst := by
  induction ret with
  | nil => simp [addSymbol]
  | cons e ret ih =>
    rw [addSymbol]
    split
    next heq => simp [heq]
    · rw [map_cons, mem_cons, ih, map_cons, mem_cons]
      exact or_left_comm

theorem nodup_keys_addSymbol (h : (ret.map Prod.fst).Nodup) :
    ((addSymbol b ret).map Prod.fst).Nodup := by
  induction ret with
  | nil => exact nodup_singleton b
  | cons e ret ih =>
    obtain ⟨he, hret⟩ := nodup_cons.1 h
    rw [addSymbol]
    split
    · exact h
    next hne =>
      refine nodup_cons.2 ⟨fun hmem => ?_, ih hret⟩
      rcases mem_keys_addSymbol.1 hmem with heq | hmem
      · exact hne heq
      · exact he hmem

theorem symOf_addSymbol : symOf (addSymbol b ret) c = symOf ret c + if c = b then 1 else 0 := by
  induction ret with
  | nil =>
    by_cases h : b = c
    · simp [addSymbol, symOf, h, Keyed.find?]
    · simp [addSymbol, symOf, h, Ne.symm h, Keyed.find?]
  | cons e ret ih =>
    rw [addSymbol]
    split
    next heq =>
      by_cases h : b = c
      · simp [symOf, heq, h]
      · simp [symOf, heq, h, Ne.symm h]
    next hne =>
      by_cases h : e.1 = c
      · have hcb : c ≠ b := fun hcb => hne (h.trans hcb)
        simp [symOf, h, hcb]
      · simp only [symOf, Keyed.find?_cons, if_neg h] at ih ⊢
        exact ih

/-- The result of a policy has no other beams than the active ones. -/
structure OfActive (ret : BeamSymbolMap) (active : ActiveUeMap) : Prop where
  nodup : (ret.map Prod.fst).Nodup
  subset : ret.map Prod.fst ⊆ active.beams.map Prod.fst

theorem OfActive.nil (active : ActiveUeMap) : OfActive [] active := ⟨nodup_nil, nil_subset _⟩

theorem OfActive.addSymbol (h : OfActive ret active) (hb : b ∈ active.beams.map Prod.fst) :
    OfActive (addSymbol b ret) active := by
  refine ⟨nodup_keys_addSymbol h.nodup, fun c hc => ?_⟩
  rcases mem_keys_addSymbol.1 hc with rfl | hc
  · exact hb
  · exact h.subset hc

/-- A distribution of so many symbols over the active beams: each has its entry. -/
structure Distributes (ret : BeamSymbolMap) (active : ActiveUeMap) (symbols : Nat) : Prop where
  beams : (ret.map Prod.fst).Perm (active.beams.map Prod.fst)
  total : totalSymbols ret = symbols

theorem foldl_entries_spec (l : List (BeamId × List (Nat × Nat)))
    (hret : (ret.map Prod.fst).Nodup) :
    ((l.foldl (fun ret b => if b.1 ∈ ret.map Prod.fst then ret else ret ++ [(b.1, 0)]) ret).map
      Prod.fst).Nodup ∧
        (∀ c, c ∈ (l.foldl (fun ret b => if b.1 ∈ ret.map Prod.fst then ret else ret ++ [(b.1, 0)])
          ret).map Prod.fst ↔ c ∈ ret.map Prod.fst ∨ c ∈ l.map Prod.fst) ∧
      totalSymbols (l.foldl (fun ret b => if b.1 ∈ ret.map Prod.fst then ret else ret ++ [(b.1, 0)])
        ret) = totalSymbols ret := by
  induction l generalizing ret with
  | nil => exact ⟨hret, by simp, rfl⟩
  | cons e l ih =>
    rw [foldl_cons]
    split
    next hmem =>
      obtain ⟨hnd, hkeys, htotal⟩ := ih hret
      refine ⟨hnd, fun c => (hkeys c).trans ?_, htotal⟩
      rw [map_cons, mem_cons, or_left_comm]
      exact ⟨.inr, fun h => h.elim (fun heq => .inl (heq ▸ hmem)) id⟩
    next hmem =>
      have hnew : ((ret ++ [(e.1, 0)]).map Prod.fst).Nodup := by
        rw [map_append]
        exact nodup_append.2 ⟨hret, nodup_singleton _, fun c hc d hd => by
          rw [mem_singleton.1 hd]
          exact fun heq => hmem (heq ▸ hc)⟩
      obtain ⟨hnd, hkeys, htotal⟩ := ih hnew
      refine ⟨hnd, fun c => (hkeys c).trans ?_, htotal.trans ?_⟩
      · simp [or_assoc]
      · simp [totalSymbols]

/-- The symbols are shared among active beams. -/
theorem OfActive.distributes (h : OfActive ret active) :
    Distributes (getSymPerBeam ret active) active (totalSymbols ret) := by
  obtain ⟨hnd, hkeys, htotal⟩ := foldl_entries_spec active.beams h.nodup
  refine ⟨(perm_ext_iff_of_nodup hnd active.keys).2 fun c => (hkeys c).trans ?_, htotal⟩
  exact or_iff_right_of_imp fun hc => h.subset hc

/-! ## By load, all symbols -/

namespace Lb

variable {symAvail : Nat}

/-- The bytes of all UEs. -/
def totalBytes (active : ActiveUeMap) : Nat := ((active.beams.flatMap Prod.snd).map Prod.snd).sum

theorem length_ues_le (active : ActiveLoads) : (active.beams.flatMap Prod.snd).length ≤ 2 ^ 16 := by
  have hnd : ((active.beams.flatMap Prod.snd).map Prod.fst).Nodup := by
    rw [map_flatMap]
    exact active.nodup
  have hsub : (active.beams.flatMap Prod.snd).map Prod.fst ⊆ List.range (2 ^ 16) := by
    intro u hu
    obtain ⟨ue, hue, rfl⟩ := mem_map.1 hu
    obtain ⟨e, he, hue⟩ := mem_flatMap.1 hue
    exact mem_range.2 (active.rnti e he ue hue)
  have hlen := (subperm_of_subset hnd hsub).length_le
  rwa [length_map, length_range] at hlen

theorem totalBytes_lt (active : ActiveLoads) : totalBytes active.toActiveUeMap < 2 ^ 53 := by
  have hle : totalBytes active.toActiveUeMap ≤ (active.beams.flatMap Prod.snd).length * 2 ^ 32 := by
    have hsum :=
      sum_le_card_nsmul ((active.beams.flatMap Prod.snd).map Prod.snd) (2 ^ 32) fun n hn => by
      obtain ⟨ue, hue, rfl⟩ := mem_map.1 hn
      obtain ⟨e, he, hue⟩ := mem_flatMap.1 hue
      exact Nat.le_of_lt (active.bytes e he ue hue).2
    rwa [length_map, nsmul_eq_mul, Nat.cast_id] at hsum
  have hlen := Nat.mul_le_mul_right (2 ^ 32) (length_ues_le active)
  exact Nat.lt_of_le_of_lt (Nat.le_trans hle hlen) (by decide)

theorem totalBytes_pos (active : ActiveLoads) (h : active.beams ≠ []) :
    0 < totalBytes active.toActiveUeMap := by
  obtain ⟨e, he⟩ := exists_mem_of_ne_nil _ h
  obtain ⟨ue, hue⟩ := exists_mem_of_ne_nil _ (active.nonempty e he)
  have hmem : ue.2 ∈ (active.beams.flatMap Prod.snd).map Prod.snd :=
    mem_map_of_mem (mem_flatMap.2 ⟨e, he, hue⟩)
  exact Nat.lt_of_lt_of_le (active.bytes e he ue hue).1 (le_sum_of_mem hmem)

theorem foldl_round (l : List (Nat × Nat)) (n : Nat) (h : n + (l.map Prod.snd).sum < 2 ^ 53) :
    l.foldl (fun (total : ℚ) ue => Double.round (total + ue.2)) n =
      ((n + (l.map Prod.snd).sum : ℕ) : ℚ) := by
  induction l generalizing n with
  | nil => simp
  | cons ue l ih =>
    rw [map_cons, sum_cons] at h
    have hround : Double.round ((n : ℚ) + ue.2) = ((n + ue.2 : ℕ) : ℚ) := by
      rw [← Nat.cast_add, Double.round_natCast (by omega)]
    rw [foldl_cons, hround, ih _ (by omega), map_cons, sum_cons, Nat.add_assoc]

theorem bufTotal_eq (active : ActiveLoads) :
    bufTotal active.toActiveUeMap = totalBytes active.toActiveUeMap := by
  have hlt := totalBytes_lt active
  rw [bufTotal, ← foldl_flatMap]
  have hfold := foldl_round (active.beams.flatMap Prod.snd) 0 (by rw [Nat.zero_add]; exact hlt)
  rw [Nat.zero_add, Nat.cast_zero] at hfold
  exact hfold

theorem bufSizeBeam_le (ues : List (Nat × Nat)) : bufSizeBeam ues ≤ (ues.map Prod.snd).sum := by
  have hfold : ∀ n, ues.foldl (fun size ue => (size + ue.2) % 2 ^ 32) n ≤
    n + (ues.map Prod.snd).sum := by
    induction ues with
    | nil => exact fun n => Nat.le_refl n
    | cons ue ues ih =>
      intro n
      have hmod := Nat.mod_le (n + ue.2) (2 ^ 32)
      have hrest := ih ((n + ue.2) % 2 ^ 32)
      rw [foldl_cons, map_cons, sum_cons]
      omega
  exact Nat.le_trans (hfold 0) (Nat.le_of_eq (Nat.zero_add _))

theorem sum_floor_round_le {t : ℚ} (ht : 0 ≤ t) (l : List Nat) :
    ((l.map fun n : Nat => ⌊Double.round (n * t)⌋₊).sum : ℚ) ≤ l.sum * (t * (1 + 1 / 2 ^ 53)) := by
  induction l with
  | nil => simp
  | cons n l ih =>
    have hn : (0 : ℚ) ≤ n * t := mul_nonneg (Nat.cast_nonneg n) ht
    have hfloor : ((⌊Double.round (n * t)⌋₊ : ℕ) : ℚ) ≤ n * (t * (1 + 1 / 2 ^ 53)) :=
      calc ((⌊Double.round (n * t)⌋₊ : ℕ) : ℚ) ≤ Double.round (n * t) := Nat.floor_le
            (Double.round_nonneg hn)
        _ ≤ n * t * (1 + 1 / 2 ^ 53) := Double.round_le hn
        _ = n * (t * (1 + 1 / 2 ^ 53)) := by ring
    rw [map_cons, sum_cons, sum_cons, Nat.cast_add, Nat.cast_add, add_mul]
    exact add_le_add hfloor ih

/-- The rounded shares do not exceed the symbols. -/
theorem sum_shares_le {total : Nat} (hpos : 0 < total) (hsym : symAvail < 256) {l : List Nat}
    (hl : l.sum ≤ total) : (l.map fun n => symForBeam symAvail total n).sum ≤ symAvail := by
  have hquotient : (0 : ℚ) ≤ symAvail / total := div_nonneg (Nat.cast_nonneg _) (Nat.cast_nonneg _)
  have ht := Double.round_nonneg hquotient
  have hcast : (0 : ℚ) < total := Nat.cast_pos.2 hpos
  have hsum : ((l.map fun n => symForBeam symAvail total n).sum : ℚ) < symAvail + 1 :=
    calc ((l.map fun n => symForBeam symAvail total n).sum : ℚ)
        ≤ l.sum * (Double.round (symAvail / total) * (1 + 1 / 2 ^ 53)) := sum_floor_round_le ht l
      _ ≤ total * (symAvail / total * (1 + 1 / 2 ^ 53) * (1 + 1 / 2 ^ 53)) := by
        have hround := Double.round_le hquotient
        gcongr
      _ = symAvail * ((1 + 1 / 2 ^ 53) * (1 + 1 / 2 ^ 53)) := by
        field_simp
      _ < symAvail + 1 := by
        have hlt : (symAvail : ℚ) < 256 := by exact_mod_cast hsym
        have hnonneg : (0 : ℚ) ≤ symAvail := Nat.cast_nonneg _
        nlinarith
  exact Nat.le_of_lt_succ (by exact_mod_cast hsum)

theorem foldl_symUsed (ret : BeamSymbolMap) (n : Nat) (h : n + totalSymbols ret < 256) :
    ret.foldl (fun used e => (used + e.2) % 256) n = n + totalSymbols ret := by
  induction ret generalizing n with
  | nil => rfl
  | cons e ret ih =>
    rw [totalSymbols_cons] at h
    rw [foldl_cons, Nat.mod_eq_of_lt (by omega), ih _ (by omega), totalSymbols_cons, Nat.add_assoc]

theorem minEntry_mem (h : ret ≠ []) : ∃ m ∈ ret, minEntry ret = some m := by
  have hfold : ∀ (l : BeamSymbolMap) (m : BeamId × Nat), ∃ m', l.foldl (fun min e => match min with
      | none => some e
      | some m => if e.2 < m.2 then some e else some m) (some m) = some m' ∧ (m' = m ∨ m' ∈ l) := by
    intro l
    induction l with
    | nil => exact fun m => ⟨m, rfl, .inl rfl⟩
    | cons e l ih =>
      intro m
      rw [foldl_cons]
      dsimp only
      split
      · obtain ⟨m', heq, hmem⟩ := ih e
        exact ⟨m', heq, .inr (mem_cons.2 hmem)⟩
      · obtain ⟨m', heq, hmem⟩ := ih m
        exact ⟨m', heq, hmem.imp_right (mem_cons_of_mem e)⟩
  cases ret with
  | nil => exact absurd rfl h
  | cons e ret =>
    obtain ⟨m, heq, hmem⟩ := hfold ret e
    exact ⟨m, mem_cons.2 hmem, heq⟩

/-- Each round gives one symbol to the beam that has fewest. -/
theorem redistribute_spec (n : Nat) (h : OfActive ret active) (hne : ret ≠ []) :
    OfActive (redistribute n ret) active ∧
      totalSymbols (redistribute n ret) = totalSymbols ret + n := by
  induction n generalizing ret with
  | zero => exact ⟨h, rfl⟩
  | succ n ih =>
    obtain ⟨m, hm, hmin⟩ := minEntry_mem hne
    have hkey : m.1 ∈ ret.map Prod.fst := mem_map_of_mem hm
    have hne' : Ofdma.addSymbol m.1 ret ≠ [] := by
      intro hnil
      have hmem : m.1 ∈ (Ofdma.addSymbol m.1 ret).map Prod.fst := mem_keys_addSymbol.2 (.inl rfl)
      rw [hnil] at hmem
      cases hmem
    obtain ⟨hof, htotal⟩ := ih (h.addSymbol (h.subset hkey)) hne'
    rw [redistribute, hmin]
    refine ⟨hof, htotal.trans ?_⟩
    rw [totalSymbols_addSymbol]
    omega

theorem getSymPerBeam_spec (active : ActiveLoads) (hne : active.beams ≠ [])
    (hsym : symAvail < 256) : ∃ ret, getSymPerBeam symAvail active.toActiveUeMap = .ok ret ∧
    OfActive ret active.toActiveUeMap ∧ totalSymbols ret = symAvail := by
  let ret : BeamSymbolMap := active.beams.map fun e =>
    (e.1, symForBeam symAvail (bufTotal active.toActiveUeMap) (bufSizeBeam e.2))
  have hkeys : ret.map Prod.fst = active.beams.map Prod.fst := by
    rw [map_map]
    rfl
  have hof : OfActive ret active.toActiveUeMap := ⟨hkeys ▸ active.keys, hkeys ▸ Subset.refl _⟩
  have hsizes : ((active.beams.map fun e => bufSizeBeam e.2).sum) ≤
    totalBytes active.toActiveUeMap := by
    rw [totalBytes, map_flatMap, flatMap_def, sum_flatten, map_map]
    exact sum_le_sum fun e _ => bufSizeBeam_le e.2
  have htotal : totalSymbols ret ≤ symAvail := by
    have hshares := sum_shares_le (totalBytes_pos active hne) hsym hsizes
    rw [map_map, ← bufTotal_eq active] at hshares
    rw [totalSymbols, map_map]
    exact hshares
  have hused : ret.foldl (fun used e => (used + e.2) % 256) 0 = totalSymbols ret := by
    rw [foldl_symUsed ret 0 (by omega), Nat.zero_add]
  obtain ⟨hofAll, hall⟩ := redistribute_spec (symAvail - totalSymbols ret) hof fun hnil =>
    hne (map_eq_nil_iff.1 hnil)
  refine ⟨_, ?_, hofAll, by omega⟩
  show (if symAvail < ret.foldl (fun used e => (used + e.2) % 256) 0 then _ else _) = _
  rw [hused, if_neg (Nat.not_lt.2 htotal), Nat.mod_eq_of_lt (by omega)]

end Lb

/-! ## Proportionally fair, not more symbols -/

namespace Pf

variable {payloadSize ueRemainingBuffer : Nat → Nat} {st : PfState}

theorem bestBeam_mem (l : List (BeamId × List (Nat × Nat)))
    (hl : l.map Prod.fst ⊆ active.beams.map Prod.fst) (st : (BeamId → Option BeamTbs) × BeamId × ℚ)
    (h : st.2.2 = -1 ∨ st.2.1 ∈ active.beams.map Prod.fst) :
    (bestBeam payloadSize ueRemainingBuffer l st).2.2 = -1 ∨
      (bestBeam payloadSize ueRemainingBuffer l st).2.1 ∈ active.beams.map Prod.fst := by
  induction l generalizing st with
  | nil => exact h
  | cons e l ih =>
    rw [map_cons, cons_subset] at hl
    rw [bestBeam, foldl_cons]
    refine ih hl.2 _ ?_
    split
    · exact h
    · dsimp only
      split
      · exact .inr hl.1
      · exact h

theorem symbol_cases (payloadSize : Nat → Nat) (active : ActiveUeMap) (st : PfState) :
    (symbol payloadSize active st).ret = st.ret ∨
      ∃ b ∈ active.beams.map Prod.fst, (symbol payloadSize active st).ret = addSymbol b st.ret := by
  have hmem : (bestBeam payloadSize st.ueRemainingBuffer active.beams (st.beams, default, -1)).2.2 =
    -1 ∨ _ :=
    bestBeam_mem active.beams (Subset.refl _) (st.beams, default, -1) (.inl rfl)
  rw [symbol]
  generalize bestBeam payloadSize st.ueRemainingBuffer active.beams (st.beams, default, -1) =
    r at hmem
  obtain ⟨beams, best, max⟩ := r
  dsimp only
  split
  · exact .inl rfl
  next hmax => exact .inr ⟨best, hmem.resolve_left hmax, rfl⟩

/-- Each round gives at most one symbol. -/
theorem symbols_spec (n : Nat) (h : OfActive st.ret active) :
    OfActive (symbols payloadSize active n st).ret active ∧
      totalSymbols (symbols payloadSize active n st).ret ≤ totalSymbols st.ret + n := by
  induction n generalizing st with
  | zero => exact ⟨h, Nat.le_refl _⟩
  | succ n ih =>
    rw [symbols]
    rcases symbol_cases payloadSize active st with heq | ⟨b, hb, heq⟩
    · obtain ⟨hof, hle⟩ := ih (heq ▸ h)
      rw [heq] at hle
      exact ⟨hof, by omega⟩
    · obtain ⟨hof, hle⟩ := ih (heq ▸ h.addSymbol hb)
      rw [heq, totalSymbols_addSymbol] at hle
      exact ⟨hof, by omega⟩

theorem getSymPerBeam_spec (payloadSize : Nat → Nat) (beams : BeamId → Option BeamTbs)
    (symAvail : Nat) (active : ActiveUeMap) :
    OfActive (getSymPerBeam payloadSize beams symAvail active).2 active ∧
      totalSymbols (getSymPerBeam payloadSize beams symAvail active).2 ≤ symAvail := by
  rw [getSymPerBeam]
  split
  · exact ⟨.nil active, Nat.zero_le _⟩
  · have hstart : ∀ buffer,
      OfActive (PfState.mk (addBeams active beams) buffer []).ret active := fun _ => .nil active
    obtain ⟨hof, hle⟩ := symbols_spec symAvail (hstart _)
    exact ⟨hof, Nat.le_trans hle (Nat.le_of_eq (Nat.zero_add _))⟩

end Pf

end OranNs3.Ofdma
