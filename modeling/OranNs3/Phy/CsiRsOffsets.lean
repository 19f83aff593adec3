import OranNs3.Phy.Pattern

/-!
# The CSI-RS offsets of the UEs

A gNB gives every UE that it registers an offset in the CSI-RS period, a slot that is not UL
(`RegisterUe`, `AssignCsiRsOffset`). The map from the offsets to their UEs is made at the first UE,
for as many repetitions of the TDD pattern as the period has, counted in 8 bits. A new UE goes to
the first offset with fewer UEs than the one before, or to the first of all: the loads are some of
one UE more, followed by the others (`Loads`), and the new UE takes one of the latter up
(`assign_spec`).
-/

namespace OranNs3.Phy

open List

variable {D : Type} [DecidableEq D]

/-! ## Registration -/

/-- What `NrGnbPhy` reads and writes to assign the offsets; the entries of the map are in the order
of their keys, the order of the UEs of a set does not matter. -/
structure CsiRsPhy (D : Type) where
  tddPattern : List SlotType
  csiRsPeriodicity : Nat
  enableCsiRs : Bool := true
  ueAttached : List Nat := []
  deviceMap : List D := []
  csiRsOffsetToUes : List (Nat × List D) := []
deriving DecidableEq

/-- `std::set::emplace`. -/
def addUe (d : D) (ues : List D) : List D := if d ∈ ues then ues else ues ++ [d]

/-- The empty map of `AssignCsiRsOffset`: `repetitions` is of 8 bits, an offset of
16, and the offsets come in increasing order. -/
def offsetsOf (pattern : List SlotType) (periodicity : Nat) : List (Nat × List D) :=
  (List.range (periodicity / pattern.length % 2 ^ 8)).flatMap fun round =>
    ((List.range pattern.length).filter fun index => pattern[index]? ≠ some .ul).map fun index =>
      ((pattern.length * round + index) % 2 ^ 16, [])

/-- The loop of `AssignCsiRsOffset` over the offsets: the first with fewer UEs than the one before.
-/
def placeUe (d : D) : Nat → List (Nat × List D) → Option (List (Nat × List D))
  | _, [] => none
  | lastAssignedOffset, i :: rest =>
    if i.2.length < lastAssignedOffset then some ((i.1, addUe d i.2) :: rest)
    else (placeUe d i.2.length rest).map (i :: ·)

/-- `NrGnbPhy::AssignCsiRsOffset`, unless it aborts or reads the first entry of an
empty map. -/
def assignCsiRsOffset (s : CsiRsPhy D) (d : D) : Option (CsiRsPhy D) := do
  guard (s.csiRsOffsetToUes ≠ [] ∨ s.csiRsPeriodicity % s.tddPattern.length = 0)
  let m := if s.csiRsOffsetToUes = [] then offsetsOf s.tddPattern s.csiRsPeriodicity
    else s.csiRsOffsetToUes
  match m with
  | [] => none
  | first :: rest =>
    some { s with
      csiRsOffsetToUes :=
        (placeUe d first.2.length (first :: rest)).getD ((first.1, addUe d first.2) :: rest) }

variable (getImsi : D → Nat)

/-- `NrGnbPhy::RegisterUe`, as `nr-helper.cc` calls it, with the IMSI of the
device. A UE that is attached already is left alone. -/
def registerUe (s : CsiRsPhy D) (d : D) : Option (CsiRsPhy D) :=
  if getImsi d ∈ s.ueAttached then some s
  else
    let s := { s with ueAttached := s.ueAttached ++ [getImsi d], deviceMap := s.deviceMap ++ [d] }
    if s.enableCsiRs ∧ hasDlSlot s.tddPattern then assignCsiRsOffset s d else some s

/-! ## The loads -/

section loads
variable {m m' : List (Nat × List D)} {d : D} {c k j last : Nat}

/-- The numbers of UEs of the offsets. -/
def loadsOf (m : List (Nat × List D)) : List Nat := m.map fun e => e.2.length

/-- The first `k` offsets have one UE more than the others, of which there are some. -/
def Loads (m : List (Nat × List D)) (c k j : Nat) : Prop :=
  loadsOf m = List.replicate k (c + 1) ++ List.replicate (j + 1) c

theorem placeUe_replicate : ∀ {m : List (Nat × List D)} {j : Nat}, loadsOf m = replicate j c →
    placeUe d c m = none
  | [], _, _ => rfl
  | _ :: _, 0, h => nomatch h
  | e :: m, j + 1, h => by
    have hcons : e.2.length :: loadsOf m = c :: replicate j c := h
    obtain ⟨he, hm⟩ := cons.inj hcons
    rw [placeUe, he, if_neg (Nat.lt_irrefl c), placeUe_replicate hm]
    rfl

theorem placeUe_loads : ∀ {m : List (Nat × List D)} {k : Nat}, Loads m c k j →
    ∃ A e B, m = A ++ e :: B ∧ placeUe d (c + 1) m = some (A ++ (e.1, addUe d e.2) :: B) ∧
      loadsOf A = replicate k (c + 1) ∧ e.2.length = c ∧ loadsOf B = replicate j c
  | [], 0, h => nomatch h
  | [], _ + 1, h => nomatch h
  | e :: m, 0, h => by
    have hcons : e.2.length :: loadsOf m = c :: replicate j c := h
    obtain ⟨he, hm⟩ := cons.inj hcons
    refine ⟨[], e, m, rfl, ?_, rfl, he, hm⟩
    rw [placeUe, if_pos (he ▸ Nat.lt_succ_self _)]
    rfl
  | e :: m, k + 1, h => by
    have hcons : e.2.length :: loadsOf m =
      (c + 1) :: (replicate k (c + 1) ++ replicate (j + 1) c) := h
    obtain ⟨he, hm⟩ := cons.inj hcons
    obtain ⟨A, f, B, rfl, hplace, hA, hf, hB⟩ := placeUe_loads hm
    refine ⟨e :: A, f, B, rfl, ?_, ?_, hf, hB⟩
    · rw [placeUe, he, if_neg (Nat.lt_irrefl _), hplace]
      rfl
    · rw [loadsOf, map_cons, he, ← loadsOf, hA, replicate_succ]

theorem Loads.addOne {A B : List (Nat × List D)} {e : Nat × List D}
    (hA : loadsOf A = replicate k (c + 1)) (he : e.2.length = c) (hB : loadsOf B = replicate j c)
    (hd : d ∉ e.2) : ∃ c' k' j', Loads (A ++ (e.1, addUe d e.2) :: B) c' k' j' := by
  have hloads : loadsOf (A ++ (e.1, addUe d e.2) :: B) =
      replicate (k + 1) (c + 1) ++ replicate j c := by
    rw [loadsOf, map_append, ← loadsOf, hA, map_cons, ← loadsOf, hB, addUe, if_neg hd,
      length_append, he, replicate_succ']
    simp
  cases j with
  | zero => exact ⟨c + 1, 0, k, by simpa [Loads] using hloads⟩
  | succ j => exact ⟨c, k + 1, j, hloads⟩

omit [DecidableEq D] in
theorem Loads.le (h : Loads m c k j) {e e' : Nat × List D} (he : e ∈ m) (he' : e' ∈ m) :
    e.2.length ≤ e'.2.length + 1 := by
  have hload : ∀ x ∈ m, x.2.length = c ∨ x.2.length = c + 1 := fun x hx => by
    have hmem : x.2.length ∈ loadsOf m := mem_map_of_mem hx
    rw [h] at hmem
    rcases mem_append.1 hmem with hmem | hmem
    · exact .inr (eq_of_mem_replicate hmem)
    · exact .inl (eq_of_mem_replicate hmem)
  have := hload e he
  have := hload e' he'
  omega

/-- What an assignment does to the map: one offset that is not above another gets the UE. -/
theorem assign_spec {s : CsiRsPhy D} (hm : s.csiRsOffsetToUes ≠ [])
    (h : Loads s.csiRsOffsetToUes c k j) (hd : ∀ e ∈ s.csiRsOffsetToUes, d ∉ e.2) :
    ∃ A e B, s.csiRsOffsetToUes = A ++ e :: B ∧
      assignCsiRsOffset s d = some { s with csiRsOffsetToUes := A ++ (e.1, e.2 ++ [d]) :: B } ∧
      ∃ c' k' j', Loads (A ++ (e.1, e.2 ++ [d]) :: B) c' k' j' := by
  obtain ⟨first, rest, hs⟩ := exists_cons_of_ne_nil hm
  have hassign : assignCsiRsOffset s d = some { s with
      csiRsOffsetToUes :=
        (placeUe d first.2.length (first :: rest)).getD ((first.1, addUe d first.2) :: rest) } := by
    rw [assignCsiRsOffset, guard, if_pos (.inl hm), if_neg hm, hs]
    rfl
  have hparts : ∃ A e B, s.csiRsOffsetToUes = A ++ e :: B ∧
      (placeUe d first.2.length (first :: rest)).getD ((first.1, addUe d first.2) :: rest) =
        A ++ (e.1, addUe d e.2) :: B ∧
      loadsOf A = replicate k (c + 1) ∧ e.2.length = c ∧ loadsOf B = replicate j c := by
    rw [hs] at h ⊢
    cases k with
    | zero =>
      have hcons : first.2.length :: loadsOf rest = c :: replicate j c := h
      obtain ⟨hfirst, hrest⟩ := cons.inj hcons
      have hall : loadsOf (first :: rest) = replicate (j + 1) c := h
      refine ⟨[], first, rest, rfl, ?_, rfl, hfirst, hrest⟩
      rw [hfirst, placeUe_replicate hall]
      rfl
    | succ k =>
      have hcons : first.2.length :: loadsOf rest =
        (c + 1) :: (replicate k (c + 1) ++ replicate (j + 1) c) := h
      obtain ⟨A, e, B, heq, hplace, hA, he, hB⟩ := placeUe_loads (d := d) h
      refine ⟨A, e, B, heq, ?_, hA, he, hB⟩
      rw [(cons.inj hcons).1, hplace]
      rfl
  obtain ⟨A, e, B, heq, hplace, hA, he, hB⟩ := hparts
  have hde : d ∉ e.2 := hd e (heq ▸ by simp)
  have hloads := Loads.addOne hA he hB hde
  have hadd : addUe d e.2 = e.2 ++ [d] := if_neg hde
  rw [hadd] at hloads hplace
  exact ⟨A, e, B, heq, by rw [hassign, hplace], hloads⟩

end loads

/-! ## The offsets of a period -/

section offsets
variable {pattern : List SlotType} {periodicity o : Nat}
omit [DecidableEq D]

theorem rounds_keys : ∀ {rounds : Nat}, pattern.length * rounds ≤ 2 ^ 16 →
    ((List.range rounds).flatMap fun round =>
      ((List.range pattern.length).filter fun index => pattern[index]? ≠ some .ul).map fun index =>
        ((pattern.length * round + index) % 2 ^ 16, ([] : List D))).map Prod.fst =
      (List.range (pattern.length * rounds)).filter fun o => pattern[o % pattern.length]? ≠ some .ul
  | 0, _ => by simp
  | rounds + 1, h => by
    rw [Nat.mul_succ] at h
    rw [range_succ, flatMap_append, map_append, rounds_keys (by omega), Nat.mul_succ,
      range_add, filter_append, filter_map]
    congr 1
    simp only [flatMap_cons, flatMap_nil, append_nil, map_map]
    have hfilter : ((List.range pattern.length).filter fun index =>
      decide (pattern[index]? ≠ some .ul)) =
        (List.range pattern.length).filter
          ((fun o => decide (pattern[o % pattern.length]? ≠ some .ul)) ∘
          (pattern.length * rounds + ·)) := by
      refine filter_congr fun index hindex => ?_
      rw [Function.comp_apply, Nat.mul_add_mod, Nat.mod_eq_of_lt (mem_range.1 hindex)]
    rw [← hfilter]
    refine map_congr_left fun index hindex => ?_
    have hlt := mem_range.1 (mem_filter.1 hindex).1
    exact Nat.mod_eq_of_lt (by omega)

theorem offsetsOf_keys (hp : periodicity < 2 ^ 16) :
    (offsetsOf (D := D) pattern periodicity).map Prod.fst =
      (List.range (pattern.length * (periodicity / pattern.length % 2 ^ 8))).filter
        fun o => pattern[o % pattern.length]? ≠ some .ul := by
  refine rounds_keys ?_
  calc pattern.length * (periodicity / pattern.length % 2 ^ 8)
      ≤ pattern.length * (periodicity / pattern.length) := Nat.mul_le_mul_left _ (Nat.mod_le _ _)
    _ ≤ periodicity := Nat.mul_div_le _ _
    _ ≤ 2 ^ 16 := hp.le

theorem eq_nil_of_mem_offsetsOf {e : Nat × List D} (he : e ∈ offsetsOf pattern periodicity) :
    e.2 = [] := by
  obtain ⟨round, -, he⟩ := mem_flatMap.1 he
  obtain ⟨index, -, rfl⟩ := mem_map.1 he
  rfl

/-- An offset of the period: a slot of it that is not UL. -/
def IsOffset (pattern : List SlotType) (periodicity o : Nat) : Prop :=
  o < periodicity ∧ pattern[o % pattern.length]? ≠ some .ul

theorem offsetsOf_complete (hdl : hasDlSlot pattern) (hp : periodicity < 2 ^ 16)
    (hmul : periodicity % pattern.length = 0) :
    (∀ o, o ∈ (offsetsOf (D := D) pattern periodicity).map Prod.fst ↔
      IsOffset pattern periodicity o) ↔ periodicity / pattern.length ≤ 255 := by
  obtain ⟨t, ht, hdlt⟩ := any_eq_true.1 hdl
  obtain ⟨i, hi⟩ := mem_iff_getElem?.1 ht
  have hlt : i < pattern.length := (List.getElem?_eq_some_iff.1 hi).1
  have hmul' : pattern.length * (periodicity / pattern.length) = periodicity :=
    Nat.mul_div_cancel' (Nat.dvd_of_mod_eq_zero hmul)
  simp only [offsetsOf_keys hp, mem_filter, mem_range, decide_eq_true_eq, IsOffset]
  constructor
  · intro h
    by_contra hgt
    -- the DL slot of the first repetition that is left out
    set q := periodicity / pattern.length with hq
    have hmod : q % 2 ^ 8 < q := Nat.lt_of_lt_of_le (Nat.mod_lt q (by decide)) (by omega)
    have hin : pattern.length * (q % 2 ^ 8) + i < periodicity := by
      have hle := Nat.mul_le_mul_left pattern.length (Nat.succ_le_of_lt hmod)
      rw [Nat.mul_succ] at hle
      omega
    have hslot : pattern[(pattern.length * (q % 2 ^ 8) + i) % pattern.length]? ≠ some .ul := by
      rw [Nat.mul_add_mod, Nat.mod_eq_of_lt hlt, hi]
      rintro heq
      obtain rfl := Option.some.inj heq
      exact absurd hdlt (by decide)
    have := ((h _).2 ⟨hin, hslot⟩).1
    omega
  · intro hle o
    rw [Nat.mod_eq_of_lt (by omega), hmul']

theorem offsetsOf_ne_nil (hdl : hasDlSlot pattern) (hp : periodicity < 2 ^ 16)
    (hq : 0 < periodicity / pattern.length % 2 ^ 8) :
    offsetsOf (D := D) pattern periodicity ≠ [] := by
  obtain ⟨t, ht, hdlt⟩ := any_eq_true.1 hdl
  obtain ⟨i, hi⟩ := mem_iff_getElem?.1 ht
  have hlt : i < pattern.length := (List.getElem?_eq_some_iff.1 hi).1
  have hmem : i ∈ (offsetsOf (D := D) pattern periodicity).map Prod.fst := by
    rw [offsetsOf_keys hp, mem_filter, mem_range]
    refine ⟨hlt.trans_le (Nat.le_mul_of_pos_right _ hq), decide_eq_true ?_⟩
    rw [Nat.mod_eq_of_lt hlt, hi]
    rintro heq
    obtain rfl := Option.some.inj heq
    exact absurd hdlt (by decide)
  rintro hnil
  rw [hnil] at hmem
  cases hmem

end offsets

/-! ## Registrations -/

/-- UEs that are registered one after the other. -/
def registerAll (s : CsiRsPhy D) (ds : List D) : Option (CsiRsPhy D) :=
  ds.foldlM (registerUe getImsi) s

/-- The offsets are those of the period; every registered UE has exactly one; the loads of two
offsets differ by at most one. -/
structure Assigned (s : CsiRsPhy D) : Prop where
  offsets : ∀ o, o ∈ s.csiRsOffsetToUes.map Prod.fst ↔ IsOffset s.tddPattern s.csiRsPeriodicity o
  distinct : (s.csiRsOffsetToUes.map Prod.fst).Nodup
  once : (s.csiRsOffsetToUes.flatMap Prod.snd).Perm s.deviceMap
  devices : s.deviceMap.Nodup
  attached : s.ueAttached = s.deviceMap.map getImsi
  balanced : ∀ e ∈ s.csiRsOffsetToUes, ∀ e' ∈ s.csiRsOffsetToUes, e.2.length ≤ e'.2.length + 1

/-- The invariant of a gNB with the pattern and the periodicity, from the first UE on. -/
structure Registered (pattern : List SlotType) (periodicity : Nat)
    (s : CsiRsPhy D) : Prop where
  tddPattern : s.tddPattern = pattern
  csiRsPeriodicity : s.csiRsPeriodicity = periodicity
  enabled : s.enableCsiRs = true
  started : s.csiRsOffsetToUes ≠ []
  keys : s.csiRsOffsetToUes.map Prod.fst = (offsetsOf (D := D) pattern periodicity).map Prod.fst
  loads : ∃ c k j, Loads s.csiRsOffsetToUes c k j
  once : (s.csiRsOffsetToUes.flatMap Prod.snd).Perm s.deviceMap
  attached : s.ueAttached = s.deviceMap.map getImsi
  nodup : s.ueAttached.Nodup

section run
variable {getImsi : D → Nat} {pattern : List SlotType} {periodicity : Nat} {s : CsiRsPhy D} {d : D}

/-- The gNB before its first UE. -/
def started (pattern : List SlotType) (periodicity : Nat) : CsiRsPhy D where
  tddPattern := pattern
  csiRsPeriodicity := periodicity

/-- The gNB before its first UE, with the map that the first UE makes. -/
def prepared (pattern : List SlotType) (periodicity : Nat) : CsiRsPhy D where
  tddPattern := pattern
  csiRsPeriodicity := periodicity
  csiRsOffsetToUes := offsetsOf pattern periodicity

theorem Registered.step (h : Registered getImsi pattern periodicity s) (hdl : hasDlSlot pattern)
    (d : D) : ∃ s', registerUe getImsi s d = some s' ∧ Registered getImsi pattern periodicity s' ∧
      getImsi d ∈ s'.ueAttached ∧ ∀ i ∈ s.ueAttached, i ∈ s'.ueAttached := by
  rw [registerUe]
  split
  · next hmem => exact ⟨s, rfl, h, hmem, fun _ => id⟩
  · next hnew =>
    obtain ⟨c, k, j, hloads⟩ := h.loads
    have hd : ∀ e ∈ s.csiRsOffsetToUes, d ∉ e.2 := fun e he hde => by
      have hmem : d ∈ s.deviceMap := h.once.mem_iff.1 (mem_flatMap.2 ⟨e, he, hde⟩)
      exact hnew (h.attached ▸ mem_map_of_mem hmem)
    rw [if_pos ⟨h.enabled, h.tddPattern ▸ hdl⟩]
    obtain ⟨A, e, B, hm, hassign, hloads'⟩ := assign_spec
      (s := { s with ueAttached := s.ueAttached ++ [getImsi d], deviceMap := s.deviceMap ++ [d] })
      h.started hloads hd
    have hs : s.csiRsOffsetToUes = A ++ e :: B := hm
    refine ⟨_, hassign, ⟨h.tddPattern, h.csiRsPeriodicity, h.enabled, by simp, ?_, hloads', ?_, ?_,
      ?_⟩, by simp, fun i hi => mem_append_left _ hi⟩
    · rw [← h.keys, hs]
      simp
    · have honce := h.once
      simp only [hs, flatMap_append, flatMap_cons] at honce ⊢
      refine Perm.trans ?_ (honce.append_right [d])
      rw [append_assoc, append_assoc, append_assoc]
      exact (List.perm_append_comm.append_left _).append_left _
    · simp [h.attached]
    · exact nodup_append.2 ⟨h.nodup, nodup_singleton _, by
        rintro i hi _ hi' rfl
        exact hnew (mem_singleton.1 hi' ▸ hi)⟩

theorem Registered.run (hdl : hasDlSlot pattern) : ∀ (ds : List D) {s : CsiRsPhy D},
    Registered getImsi pattern periodicity s →
      ∃ s', registerAll getImsi s ds = some s' ∧ Registered getImsi pattern periodicity s' ∧
        (∀ d ∈ ds, getImsi d ∈ s'.ueAttached) ∧ ∀ i ∈ s.ueAttached, i ∈ s'.ueAttached
  | [], s, h => ⟨s, rfl, h, fun _ hd => (nomatch hd), fun _ => id⟩
  | d :: ds, s, h => by
    obtain ⟨s₁, hs₁, h₁, hd, hold⟩ := h.step hdl d
    obtain ⟨s', hs', h', hds, hold'⟩ := Registered.run hdl ds h₁
    refine ⟨s', ?_, h', fun e he => ?_, fun i hi => hold' i (hold i hi)⟩
    · rw [registerAll, foldlM_cons, hs₁]
      exact hs'
    · rcases mem_cons.1 he with rfl | he
      · exact hold' _ hd
      · exact hds e he

omit [DecidableEq D] in
theorem Registered.prepared (hdl : hasDlSlot pattern) (hp : periodicity < 2 ^ 16)
    (hq : 0 < periodicity / pattern.length % 2 ^ 8) :
    Registered getImsi pattern periodicity (prepared (D := D) pattern periodicity) := by
  have hne := offsetsOf_ne_nil (D := D) hdl hp hq
  refine ⟨rfl, rfl, rfl, hne, rfl, ?_, ?_, rfl, nodup_nil⟩
  · obtain ⟨first, rest, hs⟩ := exists_cons_of_ne_nil hne
    refine ⟨0, 0, rest.length, ?_⟩
    show loadsOf (offsetsOf pattern periodicity) = replicate (rest.length + 1) 0
    rw [eq_replicate_iff]
    refine ⟨by simp [loadsOf, hs], fun n hn => ?_⟩
    obtain ⟨e, he, rfl⟩ := mem_map.1 hn
    rw [eq_nil_of_mem_offsetsOf he, length_nil]
  · have hempty : (offsetsOf (D := D) pattern periodicity).flatMap Prod.snd = [] :=
      flatMap_eq_nil_iff.2 fun e he => eq_nil_of_mem_offsetsOf he
    exact hempty ▸ Perm.nil

theorem registerUe_new (hnew : getImsi d ∉ s.ueAttached) (henabled : s.enableCsiRs = true)
    (hdl : hasDlSlot s.tddPattern) : registerUe getImsi s d = assignCsiRsOffset
      { s with ueAttached := s.ueAttached ++ [getImsi d], deviceMap := s.deviceMap ++ [d] } d := by
  rw [registerUe, if_neg hnew, if_pos ⟨henabled, hdl⟩]

theorem assignCsiRsOffset_empty (hempty : s.csiRsOffsetToUes = [])
    (hmul : s.csiRsPeriodicity % s.tddPattern.length = 0) :
    assignCsiRsOffset s d = if offsetsOf (D := D) s.tddPattern s.csiRsPeriodicity = [] then none
      else assignCsiRsOffset { s with csiRsOffsetToUes := offsetsOf s.tddPattern s.csiRsPeriodicity
        } d := by
  rw [assignCsiRsOffset, guard, if_pos (.inr hmul), if_pos hempty]
  generalize hm : offsetsOf (D := D) s.tddPattern s.csiRsPeriodicity = m
  cases m with
  | nil => rfl
  | cons first rest =>
    rw [if_neg (cons_ne_nil _ _), assignCsiRsOffset, guard, if_pos (.inl (cons_ne_nil _ _)),
      if_neg (cons_ne_nil _ _)]

theorem registerUe_started (hdl : hasDlSlot pattern) (hmul : periodicity % pattern.length = 0)
    (d : D) : registerUe getImsi (started pattern periodicity) d =
      if offsetsOf (D := D) pattern periodicity = [] then none
      else registerUe getImsi (Phy.prepared pattern periodicity) d := by
  rw [registerUe_new (by simp [started]) rfl hdl, registerUe_new (by simp [Phy.prepared]) rfl hdl]
  exact assignCsiRsOffset_empty rfl hmul

omit [DecidableEq D] in
theorem Registered.assigned (h : Registered getImsi pattern periodicity s)
    (hp : periodicity < 2 ^ 16)
    (hall : ∀ o, o ∈ (offsetsOf (D := D) pattern periodicity).map Prod.fst ↔
    IsOffset pattern periodicity o) :
    Assigned getImsi s := by
  obtain ⟨c, k, j, hloads⟩ := h.loads
  refine ⟨fun o => ?_, ?_, h.once, ?_, h.attached, fun e he e' he' => hloads.le he he'⟩
  · rw [h.keys, hall, h.tddPattern, h.csiRsPeriodicity]
  · rw [h.keys, offsetsOf_keys hp]
    exact List.nodup_range.filter _
  · have hnodup := h.nodup
    rw [h.attached] at hnodup
    exact hnodup.of_map

/-- Every registered UE gets one offset of the period, with balanced loads, exactly if the
repetitions of the pattern fit in 8 bits and the period is not empty. -/
theorem assigned_iff (getImsi : D → Nat) (pattern : List SlotType) (periodicity : Nat) (ds : List D)
    (hdl : hasDlSlot pattern) (hp : periodicity < 2 ^ 16)
      (hmul : periodicity % pattern.length = 0) :
    (∃ s, registerAll getImsi (started pattern periodicity) ds = some s ∧
      (∀ d ∈ ds, getImsi d ∈ s.ueAttached) ∧ (ds ≠ [] → Assigned getImsi s)) ↔
      (ds ≠ [] → 0 < periodicity ∧ periodicity / pattern.length ≤ 255) := by
  cases ds with
  | nil => exact ⟨fun _ h => absurd rfl h, fun _ =>
      ⟨_, rfl, fun _ h => (nomatch h), fun h => absurd rfl h⟩⟩
  | cons d ds =>
    have hlen : 0 < pattern.length := by
      obtain ⟨t, ht, -⟩ := any_eq_true.1 hdl
      exact length_pos_of_mem ht
    have hfirst : registerAll getImsi (started pattern periodicity) (d :: ds) =
        if offsetsOf (D := D) pattern periodicity = [] then none
        else registerAll getImsi (Phy.prepared pattern periodicity) (d :: ds) := by
      rw [registerAll, foldlM_cons, registerUe_started hdl hmul]
      split
      · rfl
      · rw [registerAll, foldlM_cons]
    simp only [ne_eq, reduceCtorEq, not_false_eq_true, forall_const]
    rw [hfirst]
    by_cases hq : 0 < periodicity / pattern.length % 2 ^ 8
    · rw [if_neg (offsetsOf_ne_nil hdl hp hq)]
      have hprepared : Registered getImsi pattern periodicity (Phy.prepared pattern periodicity) :=
        Registered.prepared hdl hp hq
      obtain ⟨s, hs, hreg, hds, -⟩ := hprepared.run hdl (d :: ds)
      have hpos : 0 < periodicity := by
        rcases Nat.eq_zero_or_pos periodicity with rfl | hpos
        · simp at hq
        · exact hpos
      rw [← offsetsOf_complete (D := D) hdl hp hmul]
      constructor
      · rintro ⟨s', hs', -, hass⟩
        obtain rfl := Option.some.inj (hs.symm.trans hs')
        refine ⟨hpos, fun o => ?_⟩
        rw [← hreg.keys, hass.offsets, hreg.tddPattern, hreg.csiRsPeriodicity]
      · rintro ⟨-, hall⟩
        exact ⟨s, hs, hds, hreg.assigned hp hall⟩
    · have hnil : offsetsOf (D := D) pattern periodicity = [] := by
        rw [offsetsOf, Nat.eq_zero_of_not_pos hq]
        rfl
      rw [if_pos hnil]
      refine ⟨fun h => ?_, fun ⟨hpos, hle⟩ => ?_⟩
      · obtain ⟨_, h, -⟩ := h
        cases h
      · refine absurd (Nat.div_pos (Nat.le_of_dvd hpos (Nat.dvd_of_mod_eq_zero hmul)) hlen)
          fun hdiv => hq ?_
        rwa [Nat.mod_eq_of_lt (by omega)]

end run

/-- Three UEs on a pattern of two slots of which one is UL, twice in the period. -/
theorem assigned_iff_three :
    (∃ s, registerAll (fun i : Nat => i) (started [.dl, .ul] 4) [7, 8, 9] = some s ∧
      (∀ d ∈ [7, 8, 9], d ∈ s.ueAttached) ∧ ([7, 8, 9] ≠ [] → Assigned (fun i : Nat => i) s)) ↔
    ([7, 8, 9] ≠ [] → 0 < 4 ∧ 4 / [SlotType.dl, .ul].length ≤ 255) :=
  assigned_iff (fun i : Nat => i) [.dl, .ul] 4 [7, 8, 9] rfl (by decide) rfl

/-- 256 repetitions of a pattern of one slot are none in 8 bits, and the first UE finds an empty
map. -/
theorem registerAll_wraps : ¬ ∀ (getImsi : Nat → Nat) (pattern : List SlotType) (periodicity : Nat)
    (ds : List Nat), hasDlSlot pattern → periodicity < 2 ^ 16 → periodicity % pattern.length = 0 →
      ∃ s, registerAll getImsi (started pattern periodicity) ds = some s ∧
        (∀ d ∈ ds, getImsi d ∈ s.ueAttached) ∧ (ds ≠ [] → Assigned getImsi s) := by
  intro h
  obtain ⟨s, hs, -⟩ := h id [.dl] 256 [7] rfl (by decide) rfl
  have hnone : registerAll id (started [.dl] 256) [7] = none := rfl
  cases hnone.symm.trans hs

end OranNs3.Phy
