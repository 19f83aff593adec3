import Mathlib.Algebra.BigOperators.Group.List.Basic
import Mathlib.Algebra.Ring.Nat
import Mathlib.Data.List.Sort
import Mathlib.Tactic.Order

/-!
# Sorted lists of disjoint intervals

An interval `(a, b)` is the set of `x` with `a ≤ x < b`. A list of intervals is `Sorted` when none
is empty and each ends before the next one begins or where it begins; it covers the union of its
intervals (`Covers`).

To add an interval, `trim` makes it disjoint from those that are there: an end that one of them
overlaps is cut off, and one that lies inside of it is taken out (`Trimmed.covers`,
`Trimmed.empty`). `insert` then puts it in its place. `advance` follows intervals that begin where
the last one ended, and `discard` takes away what is before a point.
-/

namespace Intervals

open Intervals List

section order
variable {α : Type*} [LinearOrder α] {l l' : List (α × α)} {i : α × α} {h t n x : α}

/-- Intervals that are not empty, each before the next. -/
def Sorted (l : List (α × α)) : Prop := (∀ i ∈ l, i.1 < i.2) ∧ l.Pairwise fun i j => i.2 ≤ j.1

/-- One of the intervals has the point. -/
def Covers (l : List (α × α)) (x : α) : Prop := ∃ i ∈ l, i.1 ≤ x ∧ x < i.2

/-- The intervals with one more, in the order of their beginnings. -/
def insert (i : α × α) (l : List (α × α)) : List (α × α) := l.orderedInsert (fun i j => i.1 ≤ j.1) i

/-- The intervals that are kept, and what is left of an interval from `h` to `t`. -/
def trim : List (α × α) → α → α → List (α × α) × α × α
  | [], h, t => ([], h, t)
  | i :: l, h, t =>
    if i.1 ≤ t then
      if h < i.2 then
        if h < i.1 ∧ i.2 < t then trim l h t
        else
          let r := trim l (if i.1 ≤ h then i.2 else h) (if t ≤ i.2 then i.1 else t)
          (i :: r.1, r.2)
      else
        let r := trim l h t
        (i :: r.1, r.2)
    else (i :: l, h, t)

/-- The end of the intervals that follow each other from `n` on. -/
def advance : List (α × α) → α → α
  | [], n => n
  | i :: l, n => if i.1 < n then advance l n else if n < i.1 then n else advance l i.2

/-- The intervals from `e` on. -/
def discard (e : α) : List (α × α) → List (α × α)
  | [] => []
  | i :: l => if i.2 ≤ e then discard e l else if i.1 < e then (e, i.2) :: l else i :: l

@[simp] theorem sorted_nil : Sorted ([] : List (α × α)) := ⟨by simp, .nil⟩

@[simp]
theorem sorted_cons : Sorted (i :: l) ↔ i.1 < i.2 ∧ (∀ j ∈ l, i.2 ≤ j.1) ∧ Sorted l := by
  simp only [Sorted, forall_mem_cons, pairwise_cons]
  tauto

@[simp] theorem not_covers_nil : ¬ Covers [] x := by simp [Covers]

@[simp] theorem covers_cons : Covers (i :: l) x ↔ i.1 ≤ x ∧ x < i.2 ∨ Covers l x := by
  simp [Covers]

theorem Sorted.sublist (hl : Sorted l) (hsub : l'.Sublist l) : Sorted l' :=
  ⟨fun i hi => hl.1 i (hsub.subset hi), hl.2.sublist hsub⟩

/-! ## Insertion -/

@[simp]
theorem mem_insert {j : α × α} : j ∈ insert i l ↔ j = i ∨ j ∈ l := mem_orderedInsert _

@[simp]
theorem covers_insert : Covers (insert i l) x ↔ i.1 ≤ x ∧ x < i.2 ∨ Covers l x := by
  simp [Covers, mem_insert]

theorem Sorted.insert (hl : Sorted l) (hi : i.1 < i.2) (hdisj : ∀ j ∈ l, j.2 ≤ i.1 ∨ i.2 ≤ j.1) :
    Sorted (insert i l) := by
  induction l with
  | nil => simp [Intervals.insert, hi]
  | cons j l ih =>
    obtain ⟨hj, hafter, hl'⟩ := sorted_cons.1 hl
    obtain ⟨hij, hdisj⟩ := forall_mem_cons.1 hdisj
    rw [Intervals.insert, orderedInsert_cons]
    split
    · next hle =>
      have hbefore : i.2 ≤ j.1 := hij.resolve_left fun hle' => by order
      refine sorted_cons.2 ⟨hi, forall_mem_cons.2 ⟨hbefore, fun k hk => ?_⟩, hl⟩
      exact (hbefore.trans hj.le).trans (hafter k hk)
    · next hnle =>
      refine sorted_cons.2 ⟨hj, fun k hk => ?_, ih hl' hdisj⟩
      rcases mem_insert.1 hk with rfl | hk
      · exact hij.resolve_right fun hle => by order
      · exact hafter k hk

/-! ## Trimming -/

/-- What trimming an interval from `h` to `t` does. -/
structure Trimmed (l : List (α × α)) (h t : α) (r : List (α × α) × α × α) : Prop where
  sublist : r.1.Sublist l
  le : h ≤ r.2.1
  ge : r.2.2 ≤ t
  disjoint : r.2.1 < r.2.2 → ∀ i ∈ r.1, i.2 ≤ r.2.1 ∨ r.2.2 ≤ i.1
  covers : r.2.1 < r.2.2 → ∀ x, Covers r.1 x ∨ r.2.1 ≤ x ∧ x < r.2.2 ↔ Covers l x ∨ h ≤ x ∧ x < t
  empty : r.2.2 ≤ r.2.1 → r.1 = l ∧ ∀ x, h ≤ x → x < t → Covers l x

theorem trim_head (hafter : ∀ i ∈ l, h < i.1) : (trim l h t).2.1 = h := by
  induction l generalizing t with
  | nil => rfl
  | cons i l ih =>
    obtain ⟨hi, hl⟩ := forall_mem_cons.1 hafter
    rw [trim]
    split <;> [split <;> [split; skip]; skip]
    · exact ih hl
    · rw [if_neg (not_le.2 hi)]
      exact ih hl
    · exact ih hl
    · rfl

theorem le_trim_tail {c : α} (hc : c ≤ t) (hafter : ∀ i ∈ l, c ≤ i.1) : c ≤ (trim l h t).2.2 := by
  induction l generalizing h t with
  | nil => exact hc
  | cons i l ih =>
    obtain ⟨hi, hl⟩ := forall_mem_cons.1 hafter
    rw [trim]
    split <;> [split <;> [split; skip]; skip]
    · exact ih hc hl
    · refine ih ?_ hl
      split
      · exact hi
      · exact hc
    · exact ih hc hl
    · exact hc

theorem trim_spec (hl : Sorted l) : Trimmed l h t (trim l h t) := by
  induction l generalizing h t with
  | nil =>
    refine ⟨.slnil, le_rfl, le_rfl, by simp [trim], by simp [trim],
      fun hle => ⟨rfl, fun x hx hxt => ?_⟩⟩
    exact absurd (hx.trans_lt hxt) (not_lt.2 hle)
  | cons i l ih =>
    obtain ⟨hi, hafter, hl⟩ := sorted_cons.1 hl
    rw [trim]
    split <;> [split <;> [split; skip]; skip]
    · next hit hhi hin =>
      -- the interval lies inside, and the pass cuts nothing off before its end
      obtain ⟨hsub, hle, hge, hdisj, hcov, -⟩ := ih (h := h) (t := t) hl
      have hhead : (trim l h t).2.1 = h := trim_head fun j hj =>
        hin.1.trans (hi.trans_le (hafter j hj))
      have htail : i.2 ≤ (trim l h t).2.2 := le_trim_tail hin.2.le hafter
      have hlt : (trim l h t).2.1 < (trim l h t).2.2 := by order
      refine ⟨hsub.cons i, hle, hge, hdisj, fun _ x => ?_, fun hge' => absurd hlt (not_lt.2 hge')⟩
      rw [hcov hlt, covers_cons]
      grind
    · next hit hhi hin =>
      obtain ⟨hsub, hle, hge, hdisj, hcov, hempty⟩ :=
        ih (h := if i.1 ≤ h then i.2 else h) (t := if t ≤ i.2 then i.1 else t) hl
      have hhead : h < i.1 →
        (trim l (if i.1 ≤ h then i.2 else h) (if t ≤ i.2 then i.1 else t)).2.1 = h := by
        intro hlt
        rw [if_neg (not_le.2 hlt)]
        exact trim_head fun j hj => (hlt.trans hi).trans_le (hafter j hj)
      have htail : t ≤ i.2 →
        i.1 ≤ (trim l (if i.1 ≤ h then i.2 else h) (if t ≤ i.2 then i.1 else t)).2.2 := by
        intro hle
        rw [if_pos hle]
        exact le_trim_tail le_rfl fun j hj => hi.le.trans (hafter j hj)
      generalize trim l (if i.1 ≤ h then i.2 else h) (if t ≤ i.2 then i.1 else t) = r at *
      refine ⟨hsub.cons_cons i, ?_, ?_, ?_, ?_, ?_⟩
      · grind
      · grind
      · grind
      · intro hlt x
        have hcov := hcov hlt x
        rw [covers_cons, covers_cons]
        grind
      · intro hge'
        obtain ⟨hkept, hcov⟩ := hempty hge'
        refine ⟨congrArg (i :: ·) hkept, fun x hx hxt => ?_⟩
        have hcov := hcov x
        rw [covers_cons]
        grind
    · next hit hhi =>
      obtain ⟨hsub, hle, hge, hdisj, hcov, hempty⟩ := ih (h := h) (t := t) hl
      have hbefore : i.2 ≤ (trim l h t).2.1 := (not_lt.1 hhi).trans hle
      refine ⟨hsub.cons_cons i, hle, hge, ?_, ?_, ?_⟩
      · exact fun hlt => forall_mem_cons.2 ⟨Or.inl hbefore, hdisj hlt⟩
      · intro hlt x
        rw [covers_cons, covers_cons, or_assoc, hcov hlt, or_assoc]
      · intro hge'
        obtain ⟨hkept, hcov⟩ := hempty hge'
        exact ⟨congrArg (i :: ·) hkept, fun x hx hxt => covers_cons.2 (Or.inr (hcov x hx hxt))⟩
    · next hit =>
      refine ⟨.refl _, le_rfl, le_rfl, fun _ => ?_, fun _ _ => Iff.rfl,
        fun hle => ⟨rfl, fun x hx hxt => ?_⟩⟩
      · refine forall_mem_cons.2 ⟨Or.inr (not_le.1 hit).le, fun j hj => Or.inr ?_⟩
        have hij := hafter j hj
        order
      · exact absurd (hx.trans_lt hxt) (not_lt.2 hle)

theorem trim_erased (hl : Sorted l) (hi : i ∈ l) (hnot : i ∉ (trim l h t).1) :
    (trim l h t).2.1 < i.1 ∧ i.2 < t := by
  induction l generalizing h t with
  | nil => simp at hi
  | cons j l ih =>
    obtain ⟨hj, hafter, hl⟩ := sorted_cons.1 hl
    rw [trim] at hnot ⊢
    split at hnot <;> [split at hnot <;> [split at hnot; skip]; skip]
    · next hjt hhj hin =>
      rw [if_pos hjt, if_pos hhj, if_pos hin]
      rcases mem_cons.1 hi with rfl | hi
      · rw [trim_head fun k hk => hin.1.trans (hj.trans_le (hafter k hk))]
        exact hin
      · exact ih hl hi hnot
    · next hjt hhj hin =>
      rw [if_pos hjt, if_pos hhj, if_neg hin]
      obtain ⟨hne, hnot⟩ := not_or.1 (mt mem_cons.2 hnot)
      obtain ⟨hhead, htail⟩ := ih hl ((mem_cons.1 hi).resolve_left hne) hnot
      refine ⟨hhead, htail.trans_le ?_⟩
      split
      · exact hjt
      · exact le_rfl
    · next hjt hhj =>
      rw [if_pos hjt, if_neg hhj]
      obtain ⟨hne, hnot⟩ := not_or.1 (mt mem_cons.2 hnot)
      exact ih hl ((mem_cons.1 hi).resolve_left hne) hnot
    · exact absurd hi hnot

theorem trim_induction {P : α → Prop} (hl : ∀ i ∈ l, P i.1 ∧ P i.2) (hh : P h) (ht : P t) :
    P (trim l h t).2.1 ∧ P (trim l h t).2.2 := by
  induction l generalizing h t with
  | nil => exact ⟨hh, ht⟩
  | cons i l ih =>
    obtain ⟨hi, hl⟩ := forall_mem_cons.1 hl
    rw [trim]
    split <;> [split <;> [split; skip]; skip]
    · exact ih hl hh ht
    · refine ih hl ?_ ?_
      · split
        · exact hi.2
        · exact hh
      · split
        · exact hi.1
        · exact ht
    · exact ih hl hh ht
    · exact ⟨hh, ht⟩

/-! ## Advancing -/

theorem advance_spec (hl : Sorted l) (hn : ∀ i ∈ l, i.2 ≤ n ∨ n ≤ i.1) : n ≤ advance l n ∧
    (∀ x, n ≤ x → x < advance l n → Covers l x) ∧ ∀ i ∈ l, i.2 ≤ advance l n ∨
    advance l n < i.1 := by
  induction l generalizing n with
  | nil => exact ⟨le_rfl, fun x hx hxn => absurd hxn (not_lt.2 hx), by simp⟩
  | cons i l ih =>
    obtain ⟨hi, hafter, hl⟩ := sorted_cons.1 hl
    obtain ⟨hin, hn⟩ := forall_mem_cons.1 hn
    rw [advance]
    split <;> [skip; split]
    · next hlt =>
      obtain ⟨hle, hcov, hend⟩ := ih hl hn
      have hbefore : i.2 ≤ n := hin.resolve_right (not_le.2 hlt)
      exact ⟨hle, fun x hx hxn => covers_cons.2 (Or.inr (hcov x hx hxn)),
        forall_mem_cons.2 ⟨Or.inl (hbefore.trans hle), hend⟩⟩
    · next hlt =>
      refine ⟨le_rfl, fun x hx hxn => absurd hxn (not_lt.2 hx), forall_mem_cons.2 ⟨Or.inr hlt, ?_⟩⟩
      exact fun j hj => Or.inr ((hlt.trans hi).trans_le (hafter j hj))
    · next hge hle =>
      obtain rfl : i.1 = n := le_antisymm (not_lt.1 hle) (not_lt.1 hge)
      obtain ⟨hle, hcov, hend⟩ := ih (n := i.2) hl fun j hj => Or.inr (hafter j hj)
      refine ⟨hi.le.trans hle, fun x hx hxn => covers_cons.2 ?_,
        forall_mem_cons.2 ⟨Or.inl hle, hend⟩⟩
      rcases lt_or_ge x i.2 with hxi | hxi
      · exact Or.inl ⟨hx, hxi⟩
      · exact Or.inr (hcov x hxi hxn)

theorem advance_induction {P : α → Prop} (hl : ∀ i ∈ l, P i.2) (hn : P n) : P (advance l n) := by
  induction l generalizing n with
  | nil => exact hn
  | cons i l ih =>
    obtain ⟨hi, hl⟩ := forall_mem_cons.1 hl
    rw [advance]
    split <;> [skip; split]
    · exact ih hl hn
    · exact hn
    · exact ih hl hi

/-! ## Discarding -/

variable {e : α}

theorem discard_of_le (hl : Sorted l) (he : ∀ i ∈ l, e ≤ i.1) : discard e l = l := by
  cases l with
  | nil => rfl
  | cons i l =>
    obtain ⟨hi, -, -⟩ := sorted_cons.1 hl
    have hei := he i mem_cons_self
    rw [discard, if_neg (not_le.2 (hei.trans_lt hi)), if_neg (not_lt.2 hei)]

theorem mem_discard (hl : Sorted l) (hi : i ∈ discard e l) :
    e ≤ i.1 ∧ ∃ j ∈ l, j.1 ≤ i.1 ∧ i.2 = j.2 ∧ (i.1 = j.1 ∨ i.1 = e) := by
  induction l with
  | nil => simp [discard] at hi
  | cons j l ih =>
    obtain ⟨hj, hafter, hl⟩ := sorted_cons.1 hl
    rw [discard] at hi
    split at hi <;> [skip; split at hi]
    · obtain ⟨hei, k, hk, hik⟩ := ih hl hi
      exact ⟨hei, k, mem_cons_of_mem _ hk, hik⟩
    · next hej hlt =>
      rcases mem_cons.1 hi with rfl | hi
      · exact ⟨le_rfl, j, mem_cons_self, hlt.le, rfl, Or.inr rfl⟩
      · have hji := hafter i hi
        exact ⟨by order, i, mem_cons_of_mem _ hi, le_rfl, rfl, Or.inl rfl⟩
    · next hej hlt =>
      refine ⟨?_, i, hi, le_rfl, rfl, Or.inl rfl⟩
      rcases mem_cons.1 hi with rfl | hi
      · exact not_lt.1 hlt
      · have hji := hafter i hi
        order

theorem Sorted.discard (hl : Sorted l) : Sorted (discard e l) := by
  induction l with
  | nil => simp [Intervals.discard]
  | cons i l ih =>
    obtain ⟨hi, hafter, hl'⟩ := sorted_cons.1 hl
    rw [Intervals.discard]
    split <;> [skip; split]
    · exact ih hl'
    · next hei hlt => exact sorted_cons.2 ⟨not_le.1 hei, hafter, hl'⟩
    · exact hl

theorem covers_discard (hl : Sorted l) : Covers (discard e l) x ↔ Covers l x ∧ e ≤ x := by
  induction l with
  | nil => simp [discard]
  | cons i l ih =>
    obtain ⟨hi, hafter, hl⟩ := sorted_cons.1 hl
    have hrest : Covers l x → i.2 ≤ x := fun ⟨j, hj, hjx, _⟩ => (hafter j hj).trans hjx
    rw [discard]
    split <;> [skip; split]
    · rw [ih hl, covers_cons]
      grind
    · rw [covers_cons, covers_cons]
      grind
    · rw [covers_cons]
      grind

end order

/-! ## Sizes -/

variable {l l' : List (Nat × Nat)} {i : Nat × Nat} {a b : Nat}

/-- The number of points that intervals of natural numbers cover, where they are sorted. -/
def size (l : List (Nat × Nat)) : Nat := (l.map fun i => i.2 - i.1).sum

@[simp] theorem size_nil : size [] = 0 := rfl

@[simp] theorem size_cons : size (i :: l) = i.2 - i.1 + size l := sum_cons

@[simp]
theorem size_insert : size (insert i l) = i.2 - i.1 + size l := by
  rw [← size_cons]
  exact ((perm_orderedInsert _ i l).map _).sum_eq

theorem Sorted.size_le (hl : Sorted l) (hab : ∀ i ∈ l, a ≤ i.1 ∧ i.2 ≤ b) : size l ≤ b - a := by
  induction l generalizing a with
  | nil => exact Nat.zero_le _
  | cons i l ih =>
    obtain ⟨hi, hafter, hl⟩ := sorted_cons.1 hl
    obtain ⟨hin, hab⟩ := forall_mem_cons.1 hab
    have hrest : size l ≤ b - i.2 := ih hl fun j hj => ⟨hafter j hj, (hab j hj).2⟩
    rw [size_cons]
    omega

theorem Sorted.size_of_covers (hl : Sorted l) (hab : a ≤ b) (hin : ∀ i ∈ l, a ≤ i.1 ∧ i.2 ≤ b)
    (hcov : ∀ x, a ≤ x → x < b → Covers l x) : size l = b - a := by
  induction l generalizing a with
  | nil =>
    have hba : b ≤ a := not_lt.1 fun hlt => not_covers_nil (hcov a le_rfl hlt)
    rw [size_nil]
    omega
  | cons i l ih =>
    obtain ⟨hi, hafter, hl⟩ := sorted_cons.1 hl
    obtain ⟨⟨hai, hib⟩, hin⟩ := forall_mem_cons.1 hin
    have hfirst : i.1 = a := by
      rcases covers_cons.1 (hcov a le_rfl (by omega)) with ⟨hle, -⟩ | ⟨j, hj, hja, -⟩
      · omega
      · have hij := hafter j hj
        omega
    have hrest : size l = b - i.2 := by
      refine ih hl hib (fun j hj => ⟨hafter j hj, (hin j hj).2⟩) fun x hx hxb => ?_
      rcases covers_cons.1 (hcov x (by omega) hxb) with ⟨-, hlt⟩ | hcov
      · omega
      · exact hcov
    rw [size_cons]
    omega

theorem Sorted.size_discard (hl : Sorted l) (hin : ∀ i ∈ l, a ≤ i.1)
    (hcov : ∀ x, a ≤ x → x < b → Covers l x) : size (Intervals.discard b l) = size l - (b - a) := by
  induction l generalizing a with
  | nil => simp [Intervals.discard]
  | cons i l ih =>
    obtain ⟨hi, hafter, hl⟩ := sorted_cons.1 hl
    obtain ⟨hai, hin⟩ := List.forall_mem_cons.1 hin
    have hfirst : a < b → i.1 = a := by
      intro hab
      rcases covers_cons.1 (hcov a le_rfl hab) with ⟨hle, -⟩ | ⟨j, hj, hja, -⟩
      · omega
      · have hij := hafter j hj
        omega
    rw [Intervals.discard]
    split <;> [skip; split]
    · next hib =>
      have hrest : size (Intervals.discard b l) = size l - (b - i.2) := by
        refine ih hl hafter fun x hx hxb => ?_
        rcases covers_cons.1 (hcov x (by omega) hxb) with ⟨-, hlt⟩ | hcov
        · omega
        · exact hcov
      rw [hrest, size_cons]
      omega
    · rw [size_cons, size_cons]
      omega
    · rw [size_cons]
      omega

end Intervals
