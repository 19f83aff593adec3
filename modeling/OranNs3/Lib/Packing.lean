import Mathlib.Data.Set.Lattice
import Mathlib.Data.List.Pairwise
import Mathlib.Order.CompletePartialOrder

/-!
# Packing blocks into lanes

A block takes some lanes from one time to another (`Block`). Blocks are placed one after the other
at a level, in lanes that are free there, and when all that was placed ends at a later level the
lanes are used anew from there on. `Packed` is what this keeps: no two blocks have a lane at the
same time, and a block that reaches over the level has no free lane.
-/

namespace Packing

open List

variable {α ι : Type*} [Preorder α]

/-- The lanes that are taken, from the time `first` until before the time `last`. -/
structure Block (α ι : Type*) where
  first : α
  last : α
  lanes : Set ι

variable {b b' : Block α ι} {bs : List (Block α ι)} {level level' : α} {free free' : Set ι}

/-- The block has the lane at the time. -/
def Block.Covers (b : Block α ι) (t : α) (i : ι) : Prop := b.first ≤ t ∧ t < b.last ∧ i ∈ b.lanes

/-- Two blocks have no lane at the same time. -/
def Apart (b b' : Block α ι) : Prop := ∀ t i, ¬ (b.Covers t i ∧ b'.Covers t i)

theorem apart_of_le (h : b.last ≤ b'.first) : Apart b b' := by
  rintro t i ⟨⟨_, hlt, _⟩, hle, _, _⟩
  exact lt_irrefl t (hlt.trans_le (h.trans hle))

theorem apart_of_disjoint (h : Disjoint b.lanes b'.lanes) : Apart b b' := by
  rintro t i ⟨⟨_, _, hi⟩, _, _, hi'⟩
  exact Set.disjoint_left.1 h hi hi'

/-- No two of the blocks overlap, and those that reach over the level have no lane that is free
there. -/
structure Packed (bs : List (Block α ι)) (level : α) (free : Set ι) : Prop where
  apart : bs.Pairwise Apart
  clear : ∀ b ∈ bs, b.last ≤ level ∨ Disjoint b.lanes free

theorem Packed.nil : Packed ([] : List (Block α ι)) level free := ⟨.nil, nofun⟩

theorem Packed.place (h : Packed bs level free) (hfirst : level ≤ b.first) (hlanes : b.lanes ⊆ free)
    (hfree : free' ⊆ free \ b.lanes) : Packed (bs ++ [b]) level free' := by
  constructor
  · refine pairwise_append.2 ⟨h.apart, pairwise_singleton _ _, ?_⟩
    intro c hc d hd
    rw [mem_singleton] at hd
    subst hd
    rcases h.clear c hc with hle | hdisj
    · exact apart_of_le (hle.trans hfirst)
    · exact apart_of_disjoint (hdisj.mono_right hlanes)
  · intro c hc
    rcases mem_append.1 hc with hc | hc
    · exact (h.clear c hc).imp_right fun hdisj => hdisj.mono_right (hfree.trans Set.sdiff_subset)
    · rw [mem_singleton] at hc
      subst hc
      exact .inr (Set.disjoint_left.2 fun i hi hi' => (hfree hi').2 hi)

theorem Packed.advance (h : Packed bs level free) (hlast : ∀ b ∈ bs, b.last ≤ level') :
    Packed bs level' free' :=
  ⟨h.apart, fun b hb => .inl (hlast b hb)⟩

end Packing
