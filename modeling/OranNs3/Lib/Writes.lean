import Mathlib.Algebra.Order.BigOperators.Group.List
import Mathlib.Algebra.Ring.Nat

/-!
# Writers that count what they write

A writer puts pieces of bytes at a pointer. Before a piece it adds a count to a running size and
stops where this exceeds a limit; behind the piece it moves the pointer, which may leave bytes out,
or not at all. Only what is written is recorded (`Write`). How far the writes of a list of pieces
reach is `reach`; where the counts are within the limit, all pieces are written (`run_eq`).
-/

namespace Writes

open List

/-- Bytes at an offset. -/
structure Write where
  offset : Nat
  bytes : List UInt8
deriving DecidableEq

/-- Every byte is below a limit. -/
def Within (limit : Nat) (writes : List Write) : Prop :=
  ∀ w ∈ writes, ∀ i < w.bytes.length, w.offset + i < limit

/-- A piece: what is counted for it, its bytes, and how far the pointer moves; `atStart` if it is
written over the start of all pieces. -/
structure Piece where
  counted : Nat
  bytes : List UInt8
  advance : Nat
  atStart : Bool := false
deriving DecidableEq

/-- The pointer, what has been written, and whether the writer goes on. -/
structure Out where
  p : Nat := 0
  writes : List Write := []
  ok : Bool := true
deriving DecidableEq

/-- A piece is written. -/
def Out.put (o : Out) (start : Nat) (piece : Piece) : Out :=
  { o with
    p := o.p + piece.advance
    writes := o.writes ++ [⟨if piece.atStart then start else o.p, piece.bytes⟩] }

/-- A writer of pieces from `start` on, with the size that has been counted, in 32 bits. -/
def run (limit start : Nat) : Nat → List Piece → Out → Out
  | _, [], o => o
  | size, piece :: l, o =>
    if (size + piece.counted) % 2 ^ 32 > limit then { o with ok := false }
    else run limit start ((size + piece.counted) % 2 ^ 32) l (o.put start piece)

/-- How far the writes of pieces reach from the start, if the pointer is at a distance from it. -/
def reach : Nat → List Piece → Nat
  | _, [] => 0
  | d, piece :: l =>
    max (if piece.bytes = [] then 0 else (if piece.atStart then 0 else d) + piece.bytes.length)
      (reach (d + piece.advance) l)

section
variable {limit start size d n : Nat} {l l' : List Piece} {o : Out} {writes writes' : List Write}
  {piece : Piece}

theorem within_append : Within limit (writes ++ writes') ↔ Within limit writes ∧
    Within limit writes' := by
  simp only [Within, mem_append, or_imp, forall_and]

theorem within_singleton {w : Write} : Within limit [w] ↔ w.bytes = [] ∨
    w.offset + w.bytes.length ≤ limit := by
  simp only [Within, mem_singleton, forall_eq]
  constructor
  · intro h
    rcases Nat.eq_zero_or_pos w.bytes.length with hzero | hpos
    · exact .inl (eq_nil_of_length_eq_zero hzero)
    · have hlast := h (w.bytes.length - 1) (by omega)
      exact .inr (by omega)
  · rintro (hnil | hle) i hi
    · rw [hnil] at hi
      exact absurd hi (Nat.not_lt_zero i)
    · omega

/-- What pieces write, where none of them stops. -/
def puts (start : Nat) (l : List Piece) (o : Out) : Out :=
  l.foldl (fun o piece => o.put start piece) o

theorem run_eq : ∀ {l : List Piece} {size : Nat} {o : Out},
    size + (l.map Piece.counted).sum ≤ limit → limit < 2 ^ 32 →
      run limit start size l o = puts start l o
  | [], _, _, _, _ => rfl
  | piece :: l, size, o, hle, hlimit => by
    rw [map_cons, sum_cons] at hle
    have hmod : (size + piece.counted) % 2 ^ 32 = size + piece.counted :=
      Nat.mod_eq_of_lt (by omega)
    rw [run, hmod, if_neg (by omega), run_eq (by omega) hlimit]
    rfl

@[simp]
theorem puts_ok : ∀ {l : List Piece} {o : Out}, (puts start l o).ok = o.ok
  | [], _ => rfl
  | _ :: _, o => puts_ok (o := o.put start _)

theorem within_puts : ∀ {l : List Piece} {o : Out}, start ≤ o.p →
    (Within limit (puts start l o).writes ↔
      Within limit o.writes ∧ (reach (o.p - start) l = 0 ∨ start + reach (o.p - start) l ≤ limit))
  | [], o, _ => by
    rw [puts, foldl_nil, reach]
    exact (and_iff_left (.inl rfl)).symm
  | piece :: l, o, hp => by
    have hput : start ≤ (o.put start piece).p := hp.trans (Nat.le_add_right _ _)
    have hdistance : (o.put start piece).p - start = o.p - start + piece.advance := by
      rw [Out.put]
      dsimp only
      omega
    rw [puts, foldl_cons, ← puts, within_puts hput, hdistance, Out.put, within_append,
      within_singleton, and_assoc]
    refine and_congr_right fun _ => ?_
    rw [reach]
    by_cases hnil : piece.bytes = []
    · simp [hnil]
    · have hpos : 0 < piece.bytes.length := length_pos_of_ne_nil hnil
      rw [if_neg hnil]
      cases piece.atStart with
      | true =>
        simp only [hnil, false_or, if_true]
        omega
      | false =>
        simp only [hnil, false_or, Bool.false_eq_true, if_false]
        omega

theorem reach_le : ∀ {l : List Piece} {d : Nat},
    (∀ piece ∈ l, piece.bytes.length ≤ if piece.atStart then d else piece.advance) →
    reach d l ≤ d + (l.map Piece.advance).sum
  | [], _, _ => Nat.zero_le _
  | piece :: l, d, h => by
    have hpiece := h piece mem_cons_self
    have hrest : reach (d + piece.advance) l ≤ d + piece.advance + (l.map Piece.advance).sum := by
      refine reach_le fun piece' hmem => (h piece' (mem_cons_of_mem _ hmem)).trans ?_
      split
      · exact Nat.le_add_right _ _
      · exact le_rfl
    rw [reach, map_cons, sum_cons]
    refine max_le ?_ (by omega)
    split_ifs at hpiece ⊢ <;> omega

end

end Writes
