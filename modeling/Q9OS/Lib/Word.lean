import Mathlib.Tactic

/-!
# 32-bit words as numbers

How the value of a word expression follows from the values of its parts when
no step wraps.
-/

namespace Q9OS.Word

variable {a b : UInt32} {x y : Nat}

theorem toNat_add (left : a.toNat = x) (right : b.toNat = y) (fits : x + y < 4294967296) :
    (a + b).toNat = x + y := by
  rw [UInt32.toNat_add, left, right]
  exact Nat.mod_eq_of_lt fits

theorem toNat_mul (left : a.toNat = x) (right : b.toNat = y) (fits : x * y < 4294967296) :
    (a * b).toNat = x * y := by
  rw [UInt32.toNat_mul, left, right]
  exact Nat.mod_eq_of_lt fits

theorem toNat_sub (left : a.toNat = x) (right : b.toNat = y) (le : y ≤ x) :
    (a - b).toNat = x - y := by
  rw [UInt32.toNat_sub_of_le _ _ (by rw [UInt32.le_iff_toNat_le, left, right]; exact le), left, right]

theorem toNat_div (left : a.toNat = x) (right : b.toNat = y) : (a / b).toNat = x / y := by
  rw [UInt32.toNat_div, left, right]

theorem toNat_mod (left : a.toNat = x) (right : b.toNat = y) : (a % b).toNat = x % y := by
  rw [UInt32.toNat_mod, left, right]

/-! ### Packed fields -/

theorem toNat_packed {a b c : UInt32} (high : a.toNat < 65536) (middle : b.toNat < 256)
    (low : c.toNat < 256) :
    ((a <<< 16) ||| (b <<< 8) ||| c).toNat = a.toNat * 65536 + b.toNat * 256 + c.toNat := by
  have highShift : (a <<< 16).toNat = a.toNat <<< 16 := by
    rw [UInt32.toNat_shiftLeft, Nat.shiftLeft_eq, Nat.shiftLeft_eq]
    exact Nat.mod_eq_of_lt (by simp; omega)
  have middleShift : (b <<< 8).toNat = b.toNat <<< 8 := by
    rw [UInt32.toNat_shiftLeft, Nat.shiftLeft_eq, Nat.shiftLeft_eq]
    exact Nat.mod_eq_of_lt (by simp; omega)
  have middleLt : b.toNat <<< 8 < 2 ^ 16 := by
    rw [Nat.shiftLeft_eq]
    omega
  have upper : a.toNat <<< 16 ||| b.toNat <<< 8 = (a.toNat * 256 + b.toNat) <<< 8 := by
    rw [← Nat.shiftLeft_add_eq_or_of_lt middleLt]
    simp only [Nat.shiftLeft_eq]
    omega
  rw [UInt32.toNat_or, UInt32.toNat_or, highShift, middleShift, upper,
    ← Nat.shiftLeft_add_eq_or_of_lt (by omega), Nat.shiftLeft_eq]
  omega

theorem toNat_field (word : UInt32) {shift mask : UInt32} {s w : Nat} (shiftIs : shift.toNat = s)
    (small : s < 32) (maskIs : mask.toNat = 2 ^ w - 1) :
    ((word >>> shift) &&& mask).toNat = word.toNat / 2 ^ s % 2 ^ w := by
  rw [UInt32.toNat_and, UInt32.toNat_shiftRight, maskIs, Nat.and_two_pow_sub_one_eq_mod, shiftIs,
    Nat.mod_eq_of_lt small, Nat.shiftRight_eq_div_pow]

theorem toNat_lowByte (word : UInt32) : (word &&& 0xFF).toNat = word.toNat % 256 := by
  rw [UInt32.toNat_and]
  exact Nat.and_two_pow_sub_one_eq_mod _ 8

/-- The three fields come back out of a packed word. -/
theorem fields_packed {a b c : UInt32} (high : a.toNat < 65536) (middle : b.toNat < 256)
    (low : c.toNat < 256) :
    (((a <<< 16) ||| (b <<< 8) ||| c) >>> 16) &&& 0xFFFF = a ∧
      (((a <<< 16) ||| (b <<< 8) ||| c) >>> 8) &&& 0xFF = b ∧
      ((a <<< 16) ||| (b <<< 8) ||| c) &&& 0xFF = c := by
  have packed := toNat_packed high middle low
  refine ⟨?_, ?_, ?_⟩
  · rw [← UInt32.toNat_inj, toNat_field (s := 16) (w := 16) _ rfl (by decide) rfl, packed]
    omega
  · rw [← UInt32.toNat_inj, toNat_field (s := 8) (w := 8) _ rfl (by decide) rfl, packed]
    omega
  · rw [← UInt32.toNat_inj, toNat_lowByte, packed]
    omega

theorem high_packed {a b c : UInt32} (high : a.toNat < 256) (middle : b.toNat < 256)
    (low : c.toNat < 256) : (((a <<< 16) ||| (b <<< 8) ||| c) >>> 16) &&& 0xFF = a := by
  rw [← UInt32.toNat_inj, toNat_field (s := 16) (w := 8) _ rfl (by decide) rfl,
    toNat_packed (by omega) middle low]
  omega

end Q9OS.Word

namespace Q9OS

/-! ### Word arithmetic on numbers -/

def add32 (a b : Nat) : Nat := (a + b) % 4294967296

theorem add32_of_lt {a b : Nat} (fits : a + b < 4294967296) : add32 a b = a + b := Nat.mod_eq_of_lt fits

def sub32 (a b : Nat) : Nat := (a + 4294967296 - b) % 4294967296

theorem sub32_of_le {a b : Nat} (fits : a < 4294967296) (le : b ≤ a) : sub32 a b = a - b := by
  unfold sub32
  omega

end Q9OS
