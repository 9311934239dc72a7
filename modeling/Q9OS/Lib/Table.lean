import Mathlib.Tactic

/-!
# Tables of slots

The live entries of a table of `n` slots, as a list up to order.
-/

namespace Q9OS

variable {α : Type} {n i : Nat} {f g : Nat → α} {live : α → Bool}

/-- The entries of slots `0` to `n - 1` that are in use. -/
def tableEntries (n : Nat) (f : Nat → α) (live : α → Bool) : List α :=
  ((List.range n).map f).filter live

theorem mem_tableEntries {a : α} :
    a ∈ tableEntries n f live ↔ live a = true ∧ ∃ j, j < n ∧ f j = a := by
  simp only [tableEntries, List.mem_filter, List.mem_map, List.mem_range]
  tauto

theorem tableEntries_congr (same : ∀ j, j < n → g j = f j) :
    tableEntries n g live = tableEntries n f live := by
  unfold tableEntries
  rw [List.map_congr_left (fun j member => same j (List.mem_range.mp member))]

/-- Writing one free slot adds one entry. -/
theorem tableEntries_insert (inside : i < n) (same : ∀ j, j ≠ i → g j = f j)
    (free : live (f i) = false) (used : live (g i) = true) :
    (tableEntries n g live).Perm (g i :: tableEntries n f live) := by
  have order : (List.range n).Perm (i :: (List.range n).erase i) :=
    List.perm_cons_erase (List.mem_range.mpr inside)
  have others : ((List.range n).erase i).map g = ((List.range n).erase i).map f := by
    refine List.map_congr_left (fun j member => same j ?_)
    exact ((List.nodup_range).mem_erase_iff.mp member).1
  have after := (order.map g).filter live
  have before := (order.map f).filter live
  rw [List.map_cons, others, List.filter_cons_of_pos used] at after
  rw [List.map_cons, List.filter_cons_of_neg (by rw [free]; exact Bool.false_ne_true)] at before
  exact after.trans (before.symm.cons (g i))

end Q9OS
