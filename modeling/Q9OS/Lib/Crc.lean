import Mathlib.Tactic

/-!
# Shift registers

A register of `w` bits that is shifted left and reduced by a polynomial is
linear in exclusive or. What a run of shifts does to the top bits can be looked
up apart from the rest, and data that enters later can enter at once.
-/

namespace Q9OS.Crc

variable {w : Nat} (poly : BitVec w)

/-- One shift of the register. -/
def shift (c : BitVec w) : BitVec w := if c.msb then (c <<< 1) ^^^ poly else c <<< 1

def shifts : Nat → BitVec w → BitVec w
  | 0, c => c
  | n + 1, c => shift poly (shifts n c)

theorem xor_reduced (a b : BitVec w) : (a ^^^ poly) ^^^ (b ^^^ poly) = a ^^^ b := by
  ext i
  simp only [BitVec.getElem_xor]
  cases a[i] <;> cases b[i] <;> cases poly[i] <;> rfl

theorem shift_xor (a b : BitVec w) : shift poly (a ^^^ b) = shift poly a ^^^ shift poly b := by
  unfold shift
  rw [BitVec.msb_xor, BitVec.shiftLeft_xor_distrib]
  cases a.msb <;> cases b.msb
  · rfl
  · simp [BitVec.xor_assoc]
  · simp only [Bool.xor_false, if_true, Bool.false_eq_true, if_false]
    rw [BitVec.xor_assoc, BitVec.xor_assoc, BitVec.xor_comm poly]
  · simp [xor_reduced]

theorem shifts_xor (n : Nat) (a b : BitVec w) :
    shifts poly n (a ^^^ b) = shifts poly n a ^^^ shifts poly n b := by
  induction n with
  | zero => rfl
  | succ n ih => simp only [shifts, ih, shift_xor]

theorem shifts_add (n k : Nat) (c : BitVec w) :
    shifts poly (n + k) c = shifts poly k (shifts poly n c) := by
  induction k with
  | zero => rfl
  | succ k ih =>
    show shift poly (shifts poly (n + k) c) = _
    rw [ih]
    rfl

/-- A register whose top `n` bits are clear only moves up. -/
theorem shifts_low (n : Nat) (c : BitVec w) (clear : ∀ i, w ≤ i + n → c.getLsbD i = false) :
    shifts poly n c = c <<< n := by
  induction n with
  | zero => simp [shifts]
  | succ n ih =>
    have below := ih (fun i high => clear i (by omega))
    have top : (c <<< n).msb = false := by
      rw [BitVec.msb_eq_getLsbD_last, BitVec.getLsbD_shiftLeft]
      by_cases inside : w - 1 < n
      · simp [inside]
      · simp [clear (w - 1 - n) (by omega)]
    simp only [shifts, below]
    unfold shift
    rw [top, if_neg Bool.false_ne_true, ← BitVec.shiftLeft_add]

/-- Data added below after `n` shifts might as well have been there before them. -/
theorem shifts_absorb (n : Nat) (c d : BitVec w) (clear : ∀ i, w ≤ i + n → d.getLsbD i = false) :
    shifts poly n c ^^^ (d <<< n) = shifts poly n (c ^^^ d) := by
  rw [shifts_xor, shifts_low poly n d clear]

end Q9OS.Crc
