import Mathlib.Tactic

/-!
# Circular storage

Cells of a ring of fixed size, addressed from any offset on and around the end.
-/

namespace Q9OS.Ring

variable {α : Type} {d d' : Nat → α} {size off n k : Nat}

/-- The `n` cells from `off` on. -/
def span (d : Nat → α) (size off n : Nat) : List α := (List.range n).map fun i => d ((off + i) % size)

/-- Stores a list from `off` on. -/
def put (d : Nat → α) (size off : Nat) : List α → Nat → α
  | [] => d
  | a :: rest => put (fun x => if x = off % size then a else d x) size (off + 1) rest

@[simp] theorem span_length : (span d size off n).length = n := by simp [span]

theorem span_add : span d size off (n + k) = span d size off n ++ span d size (off + n) k := by
  unfold span
  rw [List.range_add, List.map_append, List.map_map]
  simp [Function.comp_def, Nat.add_assoc]

theorem span_mod : span d size (off % size) n = span d size off n := by
  unfold span
  simp

theorem span_congr (same : ∀ i < n, d ((off + i) % size) = d' ((off + i) % size)) :
    span d size off n = span d' size off n := by
  apply List.map_congr_left
  intro i inside
  exact same i (List.mem_range.mp inside)

/-- A span that is a list of lists starts with the first of them. -/
theorem span_cons {a : List α} {rest : List α} (whole : span d size off n = a ++ rest) :
    span d size off a.length = a ∧ span d size (off + a.length) (n - a.length) = rest := by
  have total : n = a.length + (n - a.length) := by
    have length := congrArg List.length whole
    rw [span_length, List.length_append] at length
    omega
  rw [total, span_add] at whole
  obtain ⟨front, back⟩ := List.append_inj whole (by simp)
  exact ⟨front, back⟩

theorem span_get {i : Nat} (inside : i < n) : (span d size off n)[i]? = some (d ((off + i) % size)) := by
  unfold span
  rw [List.getElem?_map, List.getElem?_range inside]
  rfl

/-- Fewer than `size` cells apart, two offsets name two cells. -/
theorem apart {i j : Nat} (first : i < size) (second : j < size) (ne : i ≠ j) :
    (off + i) % size ≠ (off + j) % size := by
  intro same
  have equal : i ≡ j [MOD size] := Nat.ModEq.add_left_cancel' off same
  exact ne (Nat.ModEq.eq_of_lt_of_lt equal first second)

theorem put_other (src : List α) {x : Nat} (other : ∀ i < src.length, x ≠ (off + i) % size) :
    put d size off src x = d x := by
  induction src generalizing d off with
  | nil => rfl
  | cons a rest ih =>
    have later : ∀ i < rest.length, x ≠ (off + 1 + i) % size := by
      intro i inside
      rw [Nat.add_assoc, Nat.add_comm 1]
      exact other (i + 1) (Nat.succ_lt_succ inside)
    rw [put, ih later]
    exact if_neg (other 0 (Nat.zero_lt_succ _))

theorem span_put (src : List α) (fits : src.length ≤ size) :
    span (put d size off src) size off src.length = src := by
  induction src generalizing d off with
  | nil => rfl
  | cons a rest ih =>
    have first : put d size off (a :: rest) (off % size) = a := by
      rw [put, put_other, if_pos rfl]
      intro i inside
      rw [Nat.add_assoc]
      rw [List.length_cons] at fits
      exact apart (i := 0) (j := 1 + i) (by omega) (by omega) (by omega)
    have later := @ih (fun x => if x = off % size then a else d x) (off + 1) (Nat.le_of_succ_le fits)
    rw [List.length_cons, Nat.add_comm, span_add]
    show _ ++ span (put d size off (a :: rest)) size (off + 1) rest.length = _
    rw [put, later]
    show [put d size off (a :: rest) (off % size)] ++ rest = _
    rw [first]
    rfl

/-- Cells before the stored ones keep what they hold. -/
theorem span_put_before (src : List α) (fits : n + src.length ≤ size) :
    span (put d size (off + n) src) size off n = span d size off n := by
  apply span_congr
  intro i inside
  apply put_other
  intro j within
  rw [Nat.add_assoc]
  exact apart (by omega) (by omega) (by omega)

/-- Cells behind the stored ones keep what they hold. -/
theorem span_put_after (src : List α) (fits : src.length + n ≤ size) :
    span (put d size off src) size (off + src.length) n = span d size (off + src.length) n := by
  apply span_congr
  intro i inside
  apply put_other
  intro j within
  rw [Nat.add_assoc]
  exact apart (by omega) (by omega) (by omega)

theorem put_mod (src : List α) : put d size (off % size) src = put d size off src := by
  induction src generalizing d off with
  | nil => rfl
  | cons a rest ih =>
    have next : (off % size + 1) % size = (off + 1) % size := by simp
    have turned := @ih (fun x => if x = off % size then a else d x) (off % size + 1)
    rw [put, put, Nat.mod_mod, ← turned, next, ih]

end Q9OS.Ring
