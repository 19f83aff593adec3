import Mathlib.Tactic.Linarith

/-!
# Binary heaps, by the keys of their slots

A binary heap of `n - 1` elements stands in the slots `1 .. n - 1` of an array, and the parent of
the slot `i` is `i / 2`. Here an array is the function `k` from slots to keys in a linear order, so
that an exchange of two slots is `k ∘ Equiv.swap i j`.

`Ordered` is the heap order. A slot whose element moves up is `UpTo`, one whose element moves down
is `DownFrom`: every pair of parent and child is in order but the one the element moves along. Each
has a rule for its start, for a move and for its end; the start of `DownFrom` (`Ordered.downFrom`)
needs the last element not to be smaller than the new parent.
-/

namespace BinaryHeap

variable {κ : Type*} [LinearOrder κ] {k : ℕ → κ} {n i c : ℕ}

/-- The heap order of the slots below `n`. -/
def Ordered (k : ℕ → κ) (n : ℕ) : Prop := ∀ j, 2 ≤ j → j < n → k (j / 2) ≤ k j

/-- The order while the element of slot `i` moves up. -/
structure UpTo (k : ℕ → κ) (n i : ℕ) : Prop where
  pairs : ∀ j, 2 ≤ j → j < n → j ≠ i → k (j / 2) ≤ k j
  grand : ∀ j, 2 ≤ i → j < n → j / 2 = i → k (i / 2) ≤ k j

/-- The order while the element of slot `i` moves down. -/
structure DownFrom (k : ℕ → κ) (n i : ℕ) : Prop where
  pairs : ∀ j, 2 ≤ j → j < n → j / 2 ≠ i → k (j / 2) ≤ k j
  grand : ∀ j, 2 ≤ i → j < n → j / 2 = i → k (i / 2) ≤ k j

theorem Ordered.root_le (h : Ordered k n) (hi : 1 ≤ i) (hn : i < n) : k 1 ≤ k i := by
  induction i using Nat.strong_induction_on with
  | _ i ih =>
    rcases Nat.lt_or_ge i 2 with h2 | h2
    · rw [show i = 1 by omega]
    · exact (ih (i / 2) (by omega) (by omega) (by omega)).trans (h i h2 hn)

theorem Ordered.congr {k' : ℕ → κ} (h : Ordered k n) (hk : ∀ j, 1 ≤ j → j < n → k' j = k j) :
    Ordered k' n := by
  intro j h2 hj
  rw [hk j (by omega) hj, hk (j / 2) (by omega) (by omega)]
  exact h j h2 hj

/-! ## Moving up -/

theorem Ordered.upTo (h : Ordered k n) : UpTo k (n + 1) n where
  pairs := fun j h2 hj hne => h j h2 (by omega)
  grand := fun j h2 hj hp => by omega

theorem UpTo.swap (h : UpTo k n i) (h2 : 2 ≤ i) (hi : i < n) (hlt : k i < k (i / 2)) :
    UpTo (k ∘ Equiv.swap i (i / 2)) n (i / 2) where
  pairs := by
    intro j hj2 hj hne
    by_cases hji : j = i
    · subst hji
      simpa using hlt.le
    · have hstay : Equiv.swap i (i / 2) j = j := Equiv.swap_apply_of_ne_of_ne hji hne
      rcases eq_or_ne (j / 2) i with hp | hp
      · simpa [hp, hstay] using h.grand j h2 hj hp
      · rcases eq_or_ne (j / 2) (i / 2) with hq | hq
        · have hle : k (j / 2) ≤ k j := h.pairs j hj2 hj hji
          simpa [hq, hstay] using hlt.le.trans (hq ▸ hle)
        · simpa [Equiv.swap_apply_of_ne_of_ne hp hq, hstay] using h.pairs j hj2 hj hji
  grand := by
    intro j hp2 hj hp
    have hup : k (i / 2 / 2) ≤ k (i / 2) := h.pairs (i / 2) hp2 (by omega) (by omega)
    have hstay : Equiv.swap i (i / 2) (i / 2 / 2) = i / 2 / 2 :=
      Equiv.swap_apply_of_ne_of_ne (by omega) (by omega)
    by_cases hji : j = i
    · subst hji
      simpa [hstay] using hup
    · have hj' : Equiv.swap i (i / 2) j = j := Equiv.swap_apply_of_ne_of_ne hji (by omega)
      have hle : k (j / 2) ≤ k j := h.pairs j (by omega) hj hji
      simpa [hstay, hj'] using hup.trans (hp ▸ hle)

theorem UpTo.ordered (h : UpTo k n i) (hi : i ≤ 1 ∨ k (i / 2) ≤ k i) : Ordered k n := by
  intro j h2 hj
  by_cases hji : j = i
  · subst hji
    exact hi.resolve_left (by omega)
  · exact h.pairs j h2 hj hji

/-! ## Moving down -/

theorem Ordered.downFrom (h : Ordered k (n + 1)) (h1 : 1 ≤ i) (hi : i ≤ n)
    (hlast : i ≤ 1 ∨ i = n ∨ k (i / 2) ≤ k n) : DownFrom (k ∘ Equiv.swap i n) n i where
  pairs := by
    intro j h2 hj hp
    have hstay : Equiv.swap i n (j / 2) = j / 2 := Equiv.swap_apply_of_ne_of_ne hp (by omega)
    by_cases hji : j = i
    · subst hji
      simpa [hstay] using (hlast.resolve_left (by omega)).resolve_left (by omega)
    · have hj' : Equiv.swap i n j = j := Equiv.swap_apply_of_ne_of_ne hji (by omega)
      simpa [hstay, hj'] using h j h2 (by omega)
  grand := by
    intro j h2 hj hp
    have hstay : Equiv.swap i n (i / 2) = i / 2 :=
      Equiv.swap_apply_of_ne_of_ne (by omega) (by omega)
    have hj' : Equiv.swap i n j = j := Equiv.swap_apply_of_ne_of_ne (by omega) (by omega)
    have hle : k (j / 2) ≤ k j := h j (by omega) (by omega)
    simpa [hstay, hj'] using (h i h2 (by omega)).trans (hp ▸ hle)

theorem DownFrom.congr {k' : ℕ → κ} (h : DownFrom k n i) (hk : ∀ j, j < n → k' j = k j) :
    DownFrom k' n i where
  pairs := by
    intro j h2 hj hp
    rw [hk j hj, hk (j / 2) (by omega)]
    exact h.pairs j h2 hj hp
  grand := by
    intro j h2 hj hp
    rw [hk j hj, hk (i / 2) (by omega)]
    exact h.grand j h2 hj hp

theorem DownFrom.swap (h : DownFrom k n i) (h1 : 1 ≤ i) (hc : c / 2 = i) (hcn : c < n)
    (hlt : k c ≤ k i) (hmin : ∀ j, j < n → j / 2 = i → k c ≤ k j) :
    DownFrom (k ∘ Equiv.swap i c) n c where
  pairs := by
    intro j h2 hj hp
    rcases eq_or_ne (j / 2) i with hq | hq
    · by_cases hjc : j = c
      · subst hjc
        simpa [hq] using hlt
      · have hj' : Equiv.swap i c j = j := Equiv.swap_apply_of_ne_of_ne (by omega) hjc
        simpa [hq, hj'] using hmin j hj hq
    · have hstay : Equiv.swap i c (j / 2) = j / 2 := Equiv.swap_apply_of_ne_of_ne hq hp
      by_cases hji : j = i
      · subst hji
        simpa [hstay] using h.grand c h2 hcn hc
      · have hj' : Equiv.swap i c j = j := Equiv.swap_apply_of_ne_of_ne hji (by omega)
        simpa [hstay, hj'] using h.pairs j h2 hj hq
  grand := by
    intro j h2 hj hp
    have hj' : Equiv.swap i c j = j := Equiv.swap_apply_of_ne_of_ne (by omega) (by omega)
    have hle : k (j / 2) ≤ k j := h.pairs j (by omega) hj (by omega)
    simpa [hc, hj'] using hp ▸ hle

theorem DownFrom.ordered (h : DownFrom k n i) (hi : ∀ j, 2 ≤ j → j < n → j / 2 = i → k i ≤ k j) :
    Ordered k n := by
  intro j h2 hj
  by_cases hp : j / 2 = i
  · exact hp ▸ hi j h2 hj hp
  · exact h.pairs j h2 hj hp

end BinaryHeap
