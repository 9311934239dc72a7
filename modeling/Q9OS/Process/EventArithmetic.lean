import Mathlib.Data.Nat.Bitwise
import Mathlib.Tactic
import Q9OS.Process.Wake

/-!
# Event values on any compiler

The arithmetic of `q9kernel_event.c` in the `long` of the compiler, which has 32
bits on the target and 64 on the host the tests run on.
-/

namespace Q9OS

open Wake

inductive LongWidth
  | bits32
  | bits64
  deriving DecidableEq, Repr

namespace LongWidth

def modulus : LongWidth → Int
  | .bits32 => 4294967296
  | .bits64 => 18446744073709551616

/-- Two's complement with wrap-around. -/
def wrap (w : LongWidth) (i : Int) : Int := (i + w.modulus / 2) % w.modulus - w.modulus / 2

/-- `(Q9_u32)r`: the `unsigned long` of the same width. -/
def unsigned (w : LongWidth) (r : Int) : Nat := (r % w.modulus).toNat

/-- The value of 32 bits by masks; 2³¹ is subtracted as the sum of two halves. -/
def signed (w : LongWidth) (value : Nat) : Int :=
  let v : Int := (value &&& 0x7FFFFFFF : Nat)
  if value &&& 0x80000000 ≠ 0 then w.wrap (v - w.wrap (0x40000000 + 0x40000000)) else v

/-- `Q9K_EventAddSaturating` -/
def eventAddSaturating (w : LongWidth) (value : Nat) (delta : Int) : Nat :=
  let v := w.signed value
  let r := w.wrap (v + delta)
  if r > 0x7FFFFFFF ∨ (delta > 0 ∧ r < v) then 0x7FFFFFFF
  else if r < w.wrap (-0x40000000 - 0x40000000) ∨ (delta < 0 ∧ r > v) then 0x80000000
  else w.unsigned r &&& 0xFFFFFFFF

/-- `Q9K_EventValueInRange` -/
def eventValueInRange (w : LongWidth) (value minValue maxValue : Nat) : Bool :=
  w.signed value ≥ w.signed minValue && w.signed value ≤ w.signed maxValue

/-! ### Either width reads the same value -/

theorem wrap_of_range (w : LongWidth) {i : Int} (low : -0x80000000 ≤ i) (high : i < 0x80000000) : w.wrap i = i := by
  unfold wrap modulus
  cases w <;> dsimp only <;> omega

/-- On 32 bits the two halves add up to -2³¹, and subtracting that wraps back. -/
theorem wrap_halves (w : LongWidth) {v : Int} (low : 0 ≤ v) (high : v < 0x80000000) :
    w.wrap (v - w.wrap (0x40000000 + 0x40000000)) = v - 0x80000000 := by
  unfold wrap modulus
  cases w <;> dsimp only <;> omega

theorem bit31 (value : Nat) : value &&& 0x80000000 ≠ 0 ↔ 0x80000000 ≤ value % 4294967296 := by
  have set : value.testBit 31 = decide (value / 0x80000000 % 2 = 1) := Nat.testBit_eq_decide_div_mod_eq
  have bit : value &&& 0x80000000 = (value.testBit 31).toNat * 0x80000000 := Nat.and_two_pow value 31
  rw [bit, set]
  by_cases odd : value / 0x80000000 % 2 = 1
  · rw [decide_eq_true odd, Bool.toNat_true]
    omega
  · rw [decide_eq_false odd, Bool.toNat_false]
    omega

theorem signed_eq (w : LongWidth) (value : Nat) : w.signed value = int32 value := by
  have low : value &&& 0x7FFFFFFF = value % 0x80000000 := Nat.and_two_pow_sub_one_eq_mod value 31
  have bit := bit31 value
  unfold signed int32
  dsimp only
  by_cases negative : value &&& 0x80000000 ≠ 0
  · have high := bit.mp negative
    rw [if_pos negative, if_neg (by omega), low, w.wrap_halves (by omega) (by omega)]
    omega
  · have small := mt bit.mpr negative
    rw [if_neg negative, if_pos (by omega), low]
    omega

theorem unsigned_low (w : LongWidth) (r : Int) : w.unsigned r &&& 0xFFFFFFFF = word32 r := by
  have mask : w.unsigned r &&& 0xFFFFFFFF = w.unsigned r % 4294967296 := Nat.and_two_pow_sub_one_eq_mod _ 32
  rw [mask]
  unfold unsigned word32 modulus
  cases w <;> dsimp only <;> omega

/-- The sum of two values, as far as it fits. -/
theorem eventAddSaturating_word (w : LongWidth) (value : Nat) {delta : Int} (low : -0x80000000 ≤ delta)
    (high : delta < 0x80000000) :
    w.eventAddSaturating value delta = word32 (saturate (int32 value + delta)) := by
  obtain ⟨least, most⟩ := int32_range value
  have floor : w.wrap (-0x40000000 - 0x40000000) = -0x80000000 := w.wrap_of_range (by decide) (by decide)
  have wrapped : w.wrap (int32 value + delta) = int32 value + delta ∨
      w.wrap (int32 value + delta) = int32 value + delta - 4294967296 ∨
      w.wrap (int32 value + delta) = int32 value + delta + 4294967296 := by
    unfold wrap modulus
    cases w <;> dsimp only <;> omega
  have within : -0x80000000 ≤ int32 value + delta → int32 value + delta < 0x80000000 →
      w.wrap (int32 value + delta) = int32 value + delta := fun low high => w.wrap_of_range low high
  unfold eventAddSaturating saturate
  rw [w.signed_eq, floor]
  dsimp only
  rw [w.unsigned_low]
  generalize int32 value = v at *
  generalize w.wrap (v + delta) = r at *
  split_ifs with above below
  · have top : max (-0x80000000) (min 0x7FFFFFFF (v + delta)) = 0x7FFFFFFF := by omega
    rw [top]
    rfl
  · have bottom : max (-0x80000000) (min 0x7FFFFFFF (v + delta)) = -0x80000000 := by omega
    rw [bottom]
    rfl
  · have same : max (-0x80000000) (min 0x7FFFFFFF (v + delta)) = r := by omega
    rw [same]

/-- Both widths compute what the target does. -/
theorem eventAddSaturating_eq (w : LongWidth) (value : Nat) {delta : Int} (low : -0x80000000 ≤ delta)
    (high : delta < 0x80000000) : w.eventAddSaturating value delta = Q9OS.eventAddSaturating value delta := by
  have target := int32_addSaturating value low high
  have narrow : Q9OS.eventAddSaturating value delta < 4294967296 := by
    unfold Q9OS.eventAddSaturating word32
    dsimp only
    split_ifs <;> omega
  rw [w.eventAddSaturating_word value low high, ← target]
  unfold word32 int32
  split <;> omega

theorem int32_toNat (x : BitVec 32) : int32 x.toNat = x.toInt := by
  have small := x.isLt
  rw [BitVec.toInt_eq_toNat_cond]
  unfold int32
  split <;> split <;> omega

end LongWidth

/-- Addition clamps the signed sum and the range test compares signed values, however wide a `long` is. -/
theorem event_arithmetic (w : LongWidth) (value delta minValue maxValue : BitVec 32) :
    (w.eventAddSaturating value.toNat delta.toInt < 4294967296 ∧
      (BitVec.ofNat 32 (w.eventAddSaturating value.toNat delta.toInt)).toInt =
        max (-0x80000000) (min 0x7FFFFFFF (value.toInt + delta.toInt))) ∧
      (w.eventValueInRange value.toNat minValue.toNat maxValue.toNat = true ↔
        minValue.toInt ≤ value.toInt ∧ value.toInt ≤ maxValue.toInt) := by
  have low : -0x80000000 ≤ delta.toInt := BitVec.le_toInt delta
  have high : delta.toInt < 0x80000000 := BitVec.toInt_lt
  have sum := w.eventAddSaturating_word value.toNat low high
  rw [LongWidth.int32_toNat] at sum
  have narrow : word32 (saturate (value.toInt + delta.toInt)) < 4294967296 := by
    unfold word32
    omega
  refine ⟨⟨by rw [sum]; exact narrow, ?_⟩, ?_⟩
  · have clamped : int32 (word32 (saturate (value.toInt + delta.toInt))) = saturate (value.toInt + delta.toInt) :=
      int32_word32 (by unfold saturate; omega) (by unfold saturate; omega)
    rw [sum, ← LongWidth.int32_toNat, BitVec.toNat_ofNat, Nat.mod_eq_of_lt narrow, clamped]
    rfl
  · unfold LongWidth.eventValueInRange
    rw [w.signed_eq, w.signed_eq, w.signed_eq, LongWidth.int32_toNat, LongWidth.int32_toNat, LongWidth.int32_toNat,
      Bool.and_eq_true, decide_eq_true_iff, decide_eq_true_iff]

end Q9OS
