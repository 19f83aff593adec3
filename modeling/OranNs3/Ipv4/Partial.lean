import OranNs3.Ipv4.Reassembly

/-!
# What is left of a packet at the timeout

`GetPartialPacket` of `src/src/internet/model/ipv4-l3-protocol.cc` puts together the fragments up to
the first gap. It does not look whether a fragment ends before the place that has been reached, as
`GetPacket` does: then the size that is left of it wraps below zero. The sum with the new start
wraps back, and no byte is added, so that the bytes are those of the prefix all the same
(`collectPartial_spec`). Sizes do not wrap exactly where each fragment goes on to the end of those
before it, below `2 ^ 16` (`Extends`).
-/

namespace OranNs3.Ipv4

open List Option

variable {p p' : List UInt8} {l pre rest : List (List UInt8 × Nat)} {e : List UInt8 × Nat}
  {i n : Nat}

/-- `Packet::CreateFragment` with its sums in 32 bits: `RemoveAtStart` and `RemoveAtEnd` remove no
more than there is. -/
def createFragment32 (p : List UInt8) (start length : Nat) : Option (List UInt8) :=
  let stop := (start + length) % 2 ^ 32
  if stop ≤ p.length then some ((p.drop start).take ((p.drop start).length - (p.length - stop)))
    else none

namespace Fragments

/-- A round of the loop of `GetPartialPacket`. -/
def partialRound (p : List UInt8) (e : List UInt8 × Nat) : Option (List UInt8) :=
  let lastEndOffset := p.length % 2 ^ 16
  if lastEndOffset > e.2 then
    let newStart := lastEndOffset - e.2
    let newSize := (e.1.length + 2 ^ 32 - newStart) % 2 ^ 32
    (createFragment32 e.1 newStart newSize).map (p ++ ·)
  else if lastEndOffset = e.2 then some (p ++ e.1)
  else some p

/-- The loop. -/
def collectPartial : List UInt8 → List (List UInt8 × Nat) → Option (List UInt8)
  | p, [] => some p
  | p, e :: l => (partialRound p e).bind fun p => collectPartial p l

def getPartialPacket (f : Fragments) : Option (List UInt8) :=
  match f.fragments with
  | [] => none
  | e :: l => if e.2 > 0 then some [] else collectPartial [] (e :: l)

/-- No size that the loop computes wraps: what is left of a fragment is not negative, and the end of
the packet fits in 16 bits. -/
def Unwrapped : List UInt8 → List (List UInt8 × Nat) → Prop
  | _, [] => True
  | p, e :: l =>
    (p.length % 2 ^ 16 > e.2 → p.length % 2 ^ 16 - e.2 ≤ e.1.length) ∧
      ∀ p', partialRound p e = some p' → p'.length < 2 ^ 16 ∧ Unwrapped p' l

end Fragments

open Fragments

/-! ## The longest prefix -/

/-- The byte at a place: of the first fragment of the list that has one there. -/
def byteAt (l : List (List UInt8 × Nat)) (i : Nat) : Option UInt8 :=
  l.findSome? fun e => if e.2 ≤ i then e.1[i - e.2]? else none

/-- The bytes of the longest prefix without a gap. -/
def IsPrefix (l : List (List UInt8 × Nat)) (p : List UInt8) : Prop :=
  ∀ i ≤ p.length, p[i]? = byteAt l i

/-- The bytes up to a place are there. -/
def Reaches (l : List (List UInt8 × Nat)) (n : Nat) : Prop := ∀ i < n, (byteAt l i).isSome

/-- The place after a fragment. -/
def stopOf (e : List UInt8 × Nat) : Nat := e.2 + e.1.length

/-- Each fragment without a gap before it ends where those before it end, or behind; the last place
has 16 bits. -/
def Extends (pre l : List (List UInt8 × Nat)) : Prop :=
  ∀ mid e rest, l = mid ++ e :: rest → Reaches (pre ++ mid) e.2 →
    (∀ d ∈ pre ++ mid, stopOf d ≤ stopOf e) ∧ stopOf e < 2 ^ 16

/-- The prefix has 16 bits. -/
def Fits (pre l : List (List UInt8 × Nat)) : Prop :=
  ∀ mid e rest, l = mid ++ e :: rest → Reaches (pre ++ mid) e.2 → stopOf e < 2 ^ 16

theorem extends_nil : Extends pre [] := fun mid _ _ h => by simp at h

theorem extends_cons : Extends pre (e :: l) ↔
    (Reaches pre e.2 → (∀ d ∈ pre, stopOf d ≤ stopOf e) ∧ stopOf e < 2 ^ 16) ∧ Extends
    (pre ++ [e]) l := by
  constructor
  · intro h
    have hfirst := h [] e l rfl
    rw [append_nil] at hfirst
    refine ⟨hfirst, fun mid d rest heq hr => ?_⟩
    rw [← append_cons] at hr ⊢
    exact h (e :: mid) d rest (by rw [heq, cons_append]) hr
  · rintro ⟨hfirst, hrest⟩ mid d rest heq hr
    cases mid with
    | nil =>
      obtain ⟨rfl, rfl⟩ := cons.inj heq
      rw [append_nil] at hr ⊢
      exact hfirst hr
    | cons c mid =>
      obtain ⟨rfl, rfl⟩ := cons.inj heq
      rw [append_cons] at hr ⊢
      exact hrest mid d rest rfl hr

theorem byteAt_append : byteAt (pre ++ rest) i = (byteAt pre i).or (byteAt rest i) :=
  findSome?_append

theorem byteAt_singleton : byteAt [e] i = if e.2 ≤ i then e.1[i - e.2]? else none := by
  rw [byteAt, findSome?_singleton]

theorem byteAt_eq_none (hl : ∀ e ∈ l, i < e.2 ∨ stopOf e ≤ i) : byteAt l i = none := by
  rw [byteAt, findSome?_eq_none_iff]
  intro e he
  split
  · next hle =>
    refine getElem?_eq_none ?_
    rcases hl e he with hlt | hstop
    · omega
    · rw [stopOf] at hstop
      omega
  · rfl

/-- What has been collected of the fragments up to a place without a gap. -/
structure Collected (pre : List (List UInt8 × Nat)) (p : List UInt8) : Prop where
  isPrefix : IsPrefix pre p
  stop_le : ∀ d ∈ pre, stopOf d ≤ p.length

theorem collected_nil : Collected [] [] := ⟨fun _ _ => rfl, fun _ h => absurd h not_mem_nil⟩

theorem Collected.reaches_iff (hc : Collected pre p) : Reaches pre n ↔ n ≤ p.length := by
  refine ⟨fun hr => ?_, fun hle i hi => ?_⟩
  · by_contra hlt
    have hsome := hr p.length (Nat.lt_of_not_le hlt)
    rw [← hc.isPrefix p.length le_rfl, getElem?_eq_none le_rfl] at hsome
    cases hsome
  · rw [← hc.isPrefix i (by omega), getElem?_eq_getElem (by omega)]
    rfl

theorem Collected.snoc (hc : Collected pre p) (he : e.2 ≤ p.length) :
    Collected (pre ++ [e]) (p ++ e.1.drop (p.length - e.2)) := by
  have hlen : (p ++ e.1.drop (p.length - e.2)).length = max p.length (stopOf e) := by
    rw [length_append, length_drop, stopOf]
    omega
  refine ⟨fun i hi => ?_, fun d hd => ?_⟩
  · rw [byteAt_append, byteAt_singleton]
    rcases Nat.lt_or_ge i p.length with hlt | hge
    · rw [getElem?_append_left hlt, ← hc.isPrefix i hlt.le, getElem?_eq_getElem hlt]
      rfl
    · rw [getElem?_append_right hge, getElem?_drop, if_pos (he.trans hge),
        byteAt_eq_none fun d hd => .inr ((hc.stop_le d hd).trans hge), none_or]
      congr 1
      omega
  · rw [hlen]
    rcases mem_append.1 hd with hd | hd
    · exact (hc.stop_le d hd).trans (le_max_left _ _)
    · rw [mem_singleton.1 hd]
      exact le_max_right _ _

theorem Collected.length_le (hc : Collected pre p) (hn : ∀ d ∈ pre, stopOf d ≤ n) :
    p.length ≤ n := by
  by_contra hlt
  have hsome := hc.isPrefix n (by omega)
  rw [byteAt_eq_none fun d hd => .inr (hn d hd), getElem?_eq_getElem (by omega)] at hsome
  cases hsome

/-! ## The loop -/

theorem length_snoc (he : e.2 ≤ p.length) :
    (p ++ e.1.drop (p.length - e.2)).length = max p.length (stopOf e) := by
  rw [length_append, length_drop, stopOf]
  omega

theorem partialRound_eq (hp : p.length < 2 ^ 16) (he : e.2 ≤ p.length)
    (hsize : e.1.length < 2 ^ 32) : partialRound p e = some (p ++ e.1.drop (p.length - e.2)) := by
  rw [partialRound]
  dsimp only
  rw [Nat.mod_eq_of_lt hp]
  rcases Nat.lt_or_ge e.2 p.length with hlt | hge
  · have hstop : (p.length - e.2 + (e.1.length + 2 ^ 32 - (p.length - e.2)) % 2 ^ 32) % 2 ^ 32 =
      e.1.length := by omega
    rw [if_pos hlt, createFragment32, hstop, if_pos le_rfl, Nat.sub_self, Nat.sub_zero, take_length,
      map_some]
  · have heq : p.length = e.2 := Nat.le_antisymm hge he
    rw [if_neg (by omega), if_pos heq, heq, Nat.sub_self, drop_zero]

theorem partialRound_gap (hp : p.length < 2 ^ 16) (he : p.length < e.2) :
    partialRound p e = some p := by
  rw [partialRound]
  dsimp only
  rw [Nat.mod_eq_of_lt hp, if_neg (by omega), if_neg (by omega)]

theorem collectPartial_gap (hp : p.length < 2 ^ 16) :
    ∀ {l : List (List UInt8 × Nat)}, (∀ e ∈ l, p.length < e.2) → collectPartial p l = some p ∧
      Unwrapped p l
  | [], _ => ⟨rfl, trivial⟩
  | e :: l, hl => by
    obtain ⟨he, hl⟩ := forall_mem_cons.1 hl
    have hround := partialRound_gap hp he
    obtain ⟨hcollect, hunwrapped⟩ := collectPartial_gap hp hl
    refine ⟨?_, fun hgt => ?_, fun p' hp' => ?_⟩
    · rw [collectPartial, hround, bind_some, hcollect]
    · rw [Nat.mod_eq_of_lt hp] at hgt
      omega
    · rw [hround] at hp'
      obtain rfl := some.inj hp'
      exact ⟨hp, hunwrapped⟩

theorem Collected.gap (hc : Collected pre p) (hl : ∀ e ∈ l, p.length < e.2) :
    IsPrefix (pre ++ l) p := fun i hi => by
  rw [byteAt_append, ← hc.isPrefix i hi, byteAt_eq_none fun e he => .inl (hi.trans_lt (hl e he)),
    or_none]

theorem gap_of_sorted (hl : (e :: l).Pairwise (·.2 ≤ ·.2)) (he : n < e.2) : ∀ d ∈ e :: l, n < d.2 :=
  forall_mem_cons.2 ⟨he, fun _ hd => he.trans_le (rel_of_pairwise_cons hl hd)⟩

theorem Fits.cons (h : Fits pre (e :: l)) : Fits (pre ++ [e]) l := fun mid d rest heq hr =>
  h (e :: mid) d rest (by rw [heq, cons_append]) (by rwa [append_cons])

theorem collectPartial_spec : ∀ {l pre : List (List UInt8 × Nat)} {p : List UInt8},
    Collected pre p → p.length < 2 ^ 16 → l.Pairwise (·.2 ≤ ·.2) → (∀ e ∈ l, e.1.length < 2 ^ 32) →
      Fits pre l → ∃ p', collectPartial p l = some p' ∧ IsPrefix (pre ++ l) p'
  | [], pre, p, hc, _, _, _, _ => ⟨p, rfl, (append_nil pre).symm ▸ hc.isPrefix⟩
  | e :: l, pre, p, hc, hp, hsorted, hsize, hfits => by
    rcases Nat.lt_or_ge p.length e.2 with hgap | hle
    · have hl := gap_of_sorted hsorted hgap
      exact ⟨p, (collectPartial_gap hp hl).1, hc.gap hl⟩
    · have hstop := hfits [] e l rfl (by rwa [append_nil, hc.reaches_iff])
      have hlen := length_snoc hle
      obtain ⟨p', hcollect, hprefix⟩ := collectPartial_spec (hc.snoc hle) (by omega)
        (pairwise_cons.1 hsorted).2 (forall_mem_cons.1 hsize).2 hfits.cons
      refine ⟨p', ?_, by rwa [append_cons]⟩
      rw [collectPartial, partialRound_eq hp hle (forall_mem_cons.1 hsize).1, bind_some, hcollect]

theorem unwrapped_iff : ∀ {l pre : List (List UInt8 × Nat)} {p : List UInt8}, Collected pre p →
    p.length < 2 ^ 16 → l.Pairwise (·.2 ≤ ·.2) → (∀ e ∈ l, e.1.length < 2 ^ 32) →
      (Unwrapped p l ↔ Extends pre l)
  | [], _, _, _, _, _, _ => iff_of_true trivial extends_nil
  | e :: l, pre, p, hc, hp, hsorted, hsize => by
    rcases Nat.lt_or_ge p.length e.2 with hgap | hle
    · have hl := gap_of_sorted hsorted hgap
      refine iff_of_true (collectPartial_gap hp hl).2 fun mid d rest heq hr => ?_
      have hmid : ∀ c ∈ mid, p.length < c.2 := fun c hc => hl c (heq ▸ mem_append_left _ hc)
      have hd : p.length < d.2 := hl d (heq ▸ by simp)
      have hsome := hr p.length hd
      rw [← hc.gap hmid p.length le_rfl, getElem?_eq_none le_rfl] at hsome
      cases hsome
    · have hlen := length_snoc hle
      have hreaches : Reaches pre e.2 := hc.reaches_iff.2 hle
      have hround := partialRound_eq hp hle (forall_mem_cons.1 hsize).1
      have hstops : (∀ d ∈ pre, stopOf d ≤ stopOf e) ↔ p.length ≤ stopOf e :=
        ⟨hc.length_le, fun h d hd => (hc.stop_le d hd).trans h⟩
      have hhead : (p.length % 2 ^ 16 > e.2 → p.length % 2 ^ 16 - e.2 ≤ e.1.length) ↔
        p.length ≤ stopOf e := by
        rw [Nat.mod_eq_of_lt hp, stopOf]
        omega
      have hnext : p.length ≤ stopOf e → stopOf e < 2 ^ 16 →
          (Unwrapped (p ++ e.1.drop (p.length - e.2)) l ↔ Extends (pre ++ [e]) l) := fun h1 h2 =>
        unwrapped_iff (hc.snoc hle) (by omega) (pairwise_cons.1 hsorted).2
          (forall_mem_cons.1 hsize).2
      rw [Unwrapped, extends_cons, imp_iff_right hreaches, hhead, hstops, hround]
      constructor
      · rintro ⟨h1, h2⟩
        obtain ⟨hlt, hun⟩ := h2 _ rfl
        exact ⟨⟨h1, by omega⟩, (hnext h1 (by omega)).1 hun⟩
      · rintro ⟨⟨h1, h2⟩, hext⟩
        refine ⟨h1, fun p' hp' => ?_⟩
        obtain rfl := some.inj hp'
        exact ⟨by omega, (hnext h1 h2).2 hext⟩

/-! ## Arrivals -/

/-- A fragment that arrives: its bytes, its offset and whether more follow. -/
abbrev Arrival := List UInt8 × Nat × Bool

/-- The fragments that `AddFragment` collects. -/
def addFragments (as : List Arrival) : Fragments :=
  as.foldl (fun f a => f.addFragment a.1 a.2.1 a.2.2) .new

theorem addFragments_sorted (as : List Arrival) :
    (addFragments as).fragments.Pairwise (·.2 ≤ ·.2) := by
  induction as using reverseRecOn with
  | nil => exact .nil
  | append_singleton as a ih =>
    rw [addFragments, foldl_append]
    exact sorted_addFragment ih _ _ _

theorem mem_addFragments {as : List Arrival} {d : List UInt8 × Nat} :
    d ∈ (addFragments as).fragments ↔ ∃ a ∈ as, d = (a.1, a.2.1) := by
  induction as using reverseRecOn with
  | nil => simp [addFragments, Fragments.new]
  | append_singleton as a ih =>
    rw [addFragments, foldl_append]
    refine mem_addFragment.trans ?_
    rw [← addFragments, ih]
    simp only [mem_append, mem_singleton, or_and_right, exists_or, exists_eq_left]
    exact Or.comm

theorem getPartialPacket_eq {f : Fragments} (hf : f.fragments ≠ [])
    (hsorted : f.fragments.Pairwise (·.2 ≤ ·.2)) :
    f.getPartialPacket = collectPartial [] f.fragments := by
  rw [Fragments.getPartialPacket]
  cases hl : f.fragments with
  | nil => exact absurd hl hf
  | cons e l =>
    rw [hl] at hsorted
    dsimp only
    split
    · next hgap =>
        exact (collectPartial_gap (p := []) (by decide) (gap_of_sorted hsorted hgap)).1.symm
    · rfl

/-- `GetPartialPacket` returns the longest prefix that 16 bits can count, and no size wraps on the
way exactly where each fragment without a gap before it goes on at least to the end of those before
it. -/
theorem partialPacket_iff {as : List Arrival} (has : as ≠ [])
    (hsize : ∀ a ∈ as, a.1.length < 2 ^ 32) : (Fits [] (addFragments as).fragments →
      ∃ p, (addFragments as).getPartialPacket = some p ∧ IsPrefix (addFragments as).fragments p) ∧
    ((∃ p, (addFragments as).getPartialPacket = some p ∧ IsPrefix (addFragments as).fragments p) ∧
      Unwrapped [] (addFragments as).fragments ↔ Extends [] (addFragments as).fragments) := by
  have hsorted := addFragments_sorted as
  have hne : (addFragments as).fragments ≠ [] := by
    cases as with
    | nil => exact absurd rfl has
    | cons a as => exact ne_nil_of_mem (mem_addFragments.2 ⟨a, mem_cons_self, rfl⟩)
  have hlength : ∀ e ∈ (addFragments as).fragments, e.1.length < 2 ^ 32 := fun e he => by
    obtain ⟨a, ha, rfl⟩ := mem_addFragments.1 he
    exact hsize a ha
  have hbytes : Fits [] (addFragments as).fragments →
      ∃ p, (addFragments as).getPartialPacket = some p ∧ IsPrefix (addFragments as).fragments p :=
        fun hfits => by
    rw [getPartialPacket_eq hne hsorted]
    exact collectPartial_spec collected_nil (by decide) hsorted hlength hfits
  have hunwrapped := unwrapped_iff collected_nil (by decide) hsorted hlength
  refine ⟨hbytes, fun h => hunwrapped.1 h.2, fun hext =>
    ⟨hbytes fun mid e rest heq hr => ?_, hunwrapped.2 hext⟩⟩
  exact (hext mid e rest heq hr).2

/-- Two fragments that overlap, and one behind a gap. -/
theorem partialPacket_iff_example :
    (addFragments [([1, 2, 3], 1, true), ([4, 5], 0, true), ([6], 8, false)]).getPartialPacket =
    some [4, 5, 2, 3] ∧ Unwrapped [] [([4, 5], 0), ([1, 2, 3], 1), ([6], 8)] := by
  have hext : Extends [] (addFragments [([1, 2, 3], 1, true), ([4, 5], 0, true),
    ([6], 8, false)]).fragments := by
    have hgap : ¬ Reaches [([4, 5], 0), ([1, 2, 3], 1)] 8 :=
      fun hr => absurd (hr 4 (by decide)) (by decide)
    exact extends_cons.2 ⟨fun _ => by decide, extends_cons.2 ⟨fun _ => by decide,
      extends_cons.2 ⟨fun hr => absurd hr hgap, extends_nil⟩⟩⟩
  exact ⟨rfl, ((partialPacket_iff (by simp) (by simp)).2.2 hext).2⟩

/-- A fragment that is contained in one before it: its bytes 8 to 12, of which 8 are already there,
would leave -4. -/
theorem partialPacket_wraps : ¬ ∀ as : List Arrival, as ≠ [] → (∀ a ∈ as, a.1.length < 2 ^ 32) →
    (∃ p, (addFragments as).getPartialPacket = some p ∧ IsPrefix (addFragments as).fragments p) ∧
      Unwrapped [] (addFragments as).fragments := by
  intro hall
  have hun := (hall [(replicate 16 1, 0, true), (replicate 4 1, 8, false)] (by simp) (by simp)).2
  have hfirst : Unwrapped [] [(replicate 16 1, 0), (replicate 4 1, 8)] := hun
  obtain ⟨-, hsecond⟩ := hfirst.2 _ rfl
  exact absurd (hsecond.1 (by decide)) (by decide)

end OranNs3.Ipv4
