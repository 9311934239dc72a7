import Mathlib.Tactic

/-!
# Blocks that tile a range

A list of address ranges that are pairwise disjoint and cover an interval.
-/

namespace Q9OS

structure Block where
  addr : Nat
  size : Nat
  deriving DecidableEq, Repr

namespace Block

def Covers (b : Block) (x : Nat) : Prop := b.addr ≤ x ∧ x < b.addr + b.size

instance (b : Block) (x : Nat) : Decidable (b.Covers x) := inferInstanceAs (Decidable (_ ∧ _))

def Apart (b c : Block) : Prop := b.addr + b.size ≤ c.addr ∨ c.addr + c.size ≤ b.addr

theorem Apart.symm {b c : Block} (apart : b.Apart c) : c.Apart b := Or.symm apart

end Block

/-- The blocks cut the range from `low` up to `high` into pieces. -/
structure Tiles (low high : Nat) (blocks : List Block) : Prop where
  apart : blocks.Pairwise Block.Apart
  cover : ∀ x, low ≤ x ∧ x < high ↔ ∃ b ∈ blocks, b.Covers x

namespace Tiles

variable {low high : Nat} {blocks blocks' : List Block}

theorem perm (tiles : Tiles low high blocks) (same : blocks.Perm blocks') : Tiles low high blocks' where
  apart := same.pairwise tiles.apart (fun apart => apart.symm)
  cover x := by simpa only [same.mem_iff] using tiles.cover x

theorem inside (tiles : Tiles low high blocks) {b : Block} (member : b ∈ blocks) (positive : 0 < b.size) :
    low ≤ b.addr ∧ b.addr + b.size ≤ high := by
  have first := (tiles.cover b.addr).mpr ⟨b, member, le_refl _, by omega⟩
  have last := (tiles.cover (b.addr + b.size - 1)).mpr ⟨b, member, by omega, by omega⟩
  omega

theorem whole (low size : Nat) : Tiles low (low + size) [⟨low, size⟩] where
  apart := List.pairwise_singleton _ _
  cover x := by simp [Block.Covers]

/-- Cutting one block in two. -/
theorem split {a size first : Nat} (tiles : Tiles low high (⟨a, size⟩ :: blocks)) (le : first ≤ size) :
    Tiles low high (⟨a, first⟩ :: ⟨a + first, size - first⟩ :: blocks) where
  apart := by
    obtain ⟨head, rest⟩ := List.pairwise_cons.mp tiles.apart
    refine List.pairwise_cons.mpr ⟨fun c member => ?_, List.pairwise_cons.mpr ⟨fun c member => ?_, rest⟩⟩
    · rcases List.mem_cons.mp member with rfl | other
      · exact Or.inl (le_refl _)
      · have := head c other
        unfold Block.Apart at *
        simp only at *
        omega
    · have := head c member
      unfold Block.Apart at *
      simp only at *
      omega
  cover x := by
    rw [tiles.cover x]
    simp only [List.mem_cons, exists_eq_or_imp, Block.Covers]
    constructor
    · rintro (here | there)
      · by_cases low' : x < a + first
        · exact Or.inl ⟨here.1, low'⟩
        · exact Or.inr (Or.inl (by omega))
      · exact Or.inr (Or.inr there)
    · rintro (here | here | there)
      · exact Or.inl (by omega)
      · exact Or.inl (by omega)
      · exact Or.inr there

end Tiles

end Q9OS
