import Mathlib.Tactic

/-!
# Tables of values

How many cells of a finite table hold a value, and what a change of one cell
does to that number.
-/

namespace Q9OS

variable {ι : Type} {cells : Finset ι} {f g : ι → Nat}

/-- The number of cells that hold `n`. -/
def holders (cells : Finset ι) (f : ι → Nat) (n : Nat) : Nat := (cells.filter fun c => f c = n).card

theorem holders_congr (same : ∀ c ∈ cells, g c = f c) (n : Nat) : holders cells g n = holders cells f n := by
  unfold holders
  rw [Finset.filter_congr (fun c inside => by rw [same c inside])]

theorem holders_eq_zero {n : Nat} : holders cells f n = 0 ↔ ∀ c ∈ cells, f c ≠ n := by
  unfold holders
  rw [Finset.card_eq_zero, Finset.filter_eq_empty_iff]

theorem holders_pos {a : ι} {n : Nat} (inside : a ∈ cells) (here : f a = n) : 0 < holders cells f n :=
  Finset.card_pos.mpr ⟨a, Finset.mem_filter.mpr ⟨inside, here⟩⟩

section
variable [DecidableEq ι] {a : ι} (inside : a ∈ cells) (same : ∀ c ∈ cells, c ≠ a → g c = f c)
include inside same

/-- One cell gives up its value for another. -/
theorem holders_change (n : Nat) : holders cells g n + (if f a = n then 1 else 0) =
    holders cells f n + (if g a = n then 1 else 0) := by
  unfold holders
  rw [Finset.card_filter, Finset.card_filter, ← Finset.add_sum_erase cells _ inside,
    ← Finset.add_sum_erase cells (fun c => if f c = n then 1 else 0) inside]
  have rest : ∑ c ∈ cells.erase a, (if g c = n then 1 else 0) = ∑ c ∈ cells.erase a, (if f c = n then 1 else 0) := by
    refine Finset.sum_congr rfl (fun c member => ?_)
    obtain ⟨other, there⟩ := Finset.mem_erase.mp member
    rw [same c there other]
  rw [rest]
  omega

theorem holders_same {n : Nat} (old : f a ≠ n) (new : g a ≠ n) : holders cells g n = holders cells f n := by
  have change := holders_change inside same n
  rwa [if_neg old, if_neg new] at change

theorem holders_gain {n : Nat} (old : f a ≠ n) (new : g a = n) : holders cells g n = holders cells f n + 1 := by
  have change := holders_change inside same n
  rwa [if_neg old, if_pos new] at change

theorem holders_lose {n : Nat} (old : f a = n) (new : g a ≠ n) : holders cells g n = holders cells f n - 1 := by
  have change := holders_change inside same n
  rw [if_pos old, if_neg new] at change
  omega

end

/-- A value that no row holds twice stands in no more cells than there are rows. -/
theorem holders_le_rows {κ : Type} [DecidableEq κ] (row : ι → κ) {n : Nat}
    (apart : ∀ c ∈ cells, ∀ c' ∈ cells, row c = row c' → f c = n → f c' = n → c = c') :
    holders cells f n ≤ (cells.image row).card := by
  refine Finset.card_le_card_of_injOn row (fun c member => ?_) (fun c member c' member' equal => ?_)
  · exact Finset.mem_image_of_mem row (Finset.mem_filter.mp member).1
  · obtain ⟨inside, here⟩ := Finset.mem_filter.mp member
    obtain ⟨inside', here'⟩ := Finset.mem_filter.mp member'
    exact apart c inside c' inside' equal here here'

end Q9OS
